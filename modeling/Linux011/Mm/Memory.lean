import Linux011.Lib.Wp
import Mathlib.Logic.Function.Basic
import Mathlib.Algebra.Group.Nat.Defs

/-!
# Memory manager — `mm/memory.c` and `copy_mem` of `kernel/fork.c`

Physical memory is word-addressed: `phys a` is the 32-bit word at byte
address `4 * a`. The page directory is frame 0 (`_pg_dir = 0`), page tables
and user pages are frames like any other, so that a page-table entry is a
word of the same memory a user store writes: nothing but the accounting
proved in `Mm/Account.lean` keeps the two apart.

Pointers of the source to page-directory or page-table entries are word
addresses here, so `p++` is `+ 1`. `invalidate()` (reloading `cr3`) and the
messages of `printk` have no effect on this state and are left out.

A routine that cannot go on stops (`Stop`): with a panic, or because `oom`
made the calling task leave through `do_exit`.
-/

namespace Linux011.Mm

open Linux011.Lib

/-- An `unsigned long`. -/
abbrev Word := BitVec 32

/-- The panics of `mm/memory.c` and `copy_mem`. -/
inductive Panic
  | shareAlreadyExists
  | freeNonexistentPage
  | freeFreePage
  | freeWrongAlignment
  | freeSwapper
  | copyWrongAlignment
  | copyAlreadyExist
  | separateID
  | badDataLimit
  deriving DecidableEq, Repr

/-- Why a routine did not return: a panic, or the exit of the calling task. -/
inductive Stop
  | panic (p : Panic)
  | exit
  deriving DecidableEq, Repr

/-- What the memory manager works on. `memMap` holds unsigned chars. -/
structure Mem where
  phys : Nat → Word
  memMap : Nat → Nat
  highMemory : Nat

/-- Routines of the memory manager. -/
abbrev MM := EStateM Stop Mem

/-- Segment bases and limits of the calling task (`ldt[1]`, `ldt[2]`). -/
structure Ldt where
  codeBase : Nat
  dataBase : Nat
  codeLimit : Nat
  dataLimit : Nat
  deriving DecidableEq, Repr

def lowMem : Nat := 0x100000
def pagingMemory : Nat := 15 * 1024 * 1024
def pagingPages : Nat := pagingMemory >>> 12
def used : Nat := 100
def mapNr (addr : Nat) : Nat := (addr - lowMem) >>> 12

/-! ## Words as entries -/

/-- `1 & w`. -/
def present (w : Word) : Bool := (w &&& 1#32) != 0#32

/-- `2 & w`. -/
def writable (w : Word) : Bool := (w &&& 2#32) != 0#32

/-- `0xfffff000 & w`: the physical address an entry names. -/
def pageAddr (w : Word) : Nat := (w &&& 0xfffff000#32).toNat

/-- `addr | 7`: present, writable, user. -/
def entry7 (addr : Nat) : Word := BitVec.ofNat 32 addr ||| 7#32

/-- `(unsigned long *) ((address>>20) & 0xffc)`, as a word address. -/
def dirEntry (address : Nat) : Nat := ((address >>> 20) &&& 0xffc) / 4

/-- `(address>>10) & 0xffc`, in words. -/
def tableIndex (address : Nat) : Nat := ((address >>> 10) &&& 0xffc) / 4

/-! ## Memory access -/

def load (a : Nat) : MM Word := do
  return (← get).phys a

def store (a : Nat) (w : Word) : MM Unit :=
  modify fun s => { s with phys := Function.update s.phys a w }

def setMemMap (i n : Nat) : MM Unit :=
  modify fun s => { s with memMap := Function.update s.memMap i n }

@[simp] theorem wp_load (a : Nat) (Q : Word → Mem → Prop) (E : Stop → Mem → Prop) (s : Mem) :
    wp (load a) Q E s ↔ Q (s.phys a) s := Iff.rfl

@[simp] theorem wp_store (a : Nat) (w : Word) (Q : Unit → Mem → Prop) (E : Stop → Mem → Prop)
    (s : Mem) :
    wp (store a w) Q E s ↔ Q () { s with phys := Function.update s.phys a w } := Iff.rfl

@[simp] theorem wp_setMemMap (i n : Nat) (Q : Unit → Mem → Prop) (E : Stop → Mem → Prop)
    (s : Mem) :
    wp (setMemMap i n) Q E s ↔ Q () { s with memMap := Function.update s.memMap i n } := Iff.rfl

/-- `copy_page(from,to)`: 1024 words between two pages. -/
def copyPage (src dst : Nat) : MM Unit :=
  modify fun s => { s with
    phys := fun a => if a / 1024 = dst / 4096 then s.phys (src / 4 + a % 1024) else s.phys a }

/-! ## Page frames -/

/-- `std ; repne ; scasb` over the first `n` bytes: the highest index that
holds 0. -/
def scanFree (memMap : Nat → Nat) : Nat → Option Nat
  | 0 => none
  | n + 1 => if memMap n = 0 then some n else scanFree memMap n

/-- `get_free_page`: mark the last free page used, clear it and return its
address, or return 0. -/
def getFreePage : MM Nat := do
  let s ← get
  match scanFree s.memMap pagingPages with
  | none => return 0
  | some i =>
    setMemMap i 1
    let page := (i <<< 12) + lowMem
    modify fun s => { s with phys := fun a => if a / 1024 = page / 4096 then 0#32 else s.phys a }
    return page

/-- `free_page`. The decrement of the unsigned char wraps. -/
def freePage (addr : Nat) : MM Unit := do
  if addr < lowMem then
    return ()
  else
    let s ← get
    if addr ≥ s.highMemory then
      throw (.panic .freeNonexistentPage)
    else
      let i := (addr - lowMem) >>> 12
      let n := s.memMap i
      setMemMap i ((n + 255) % 256)
      if n ≠ 0 then
        return ()
      else
        setMemMap i 0
        throw (.panic .freeFreePage)

/-! ## Page tables -/

/-- The inner loop body of `free_page_tables`. -/
def freeEntry (pgTable nr : Nat) : MM Unit := do
  let w ← load (pgTable + nr)
  if present w then
    freePage (pageAddr w)
    store (pgTable + nr) 0#32
  else
    store (pgTable + nr) 0#32

/-- The outer loop body of `free_page_tables`. -/
def freeDir (dir : Nat) : MM Unit := do
  let d ← load dir
  if present d then
    upTo 1024 (freeEntry (pageAddr d / 4))
    -- `*dir` is read again after the table has been walked
    let d ← load dir
    freePage (pageAddr d)
    store dir 0#32
  else
    return ()

/-- `free_page_tables`. -/
def freePageTables (from_ size : Nat) : MM Int := do
  if from_ &&& 0x3fffff ≠ 0 then
    throw (.panic .freeWrongAlignment)
  else if from_ = 0 then
    throw (.panic .freeSwapper)
  else
    let n := ((size + 0x3fffff) % 2 ^ 32) >>> 22
    upTo n (fun i => freeDir (dirEntry from_ + i))
    return 0

/-- The inner loop body of `copy_page_tables`. -/
def copyEntry (fromPageTable toPageTable nr : Nat) : MM Unit := do
  let thisPage ← load (fromPageTable + nr)
  if present thisPage then
    let thisPage := thisPage &&& ~~~2#32
    store (toPageTable + nr) thisPage
    if thisPage.toNat > lowMem then
      store (fromPageTable + nr) thisPage
      let i := (thisPage.toNat - lowMem) >>> 12
      let s ← get
      setMemMap i ((s.memMap i + 1) % 256)
    else
      return ()
  else
    return ()

/-- The outer loop of `copy_page_tables`, `n` directory entries left; `nr` is
the number of entries copied of each table. -/
def copyDirs (nr : Nat) : (n fromDir toDir : Nat) → MM Int
  | 0, _, _ => return 0
  | n + 1, fromDir, toDir => do
    let t ← load toDir
    if present t then
      throw (.panic .copyAlreadyExist)
    else
      let f ← load fromDir
      if present f then
        let toPageTable ← getFreePage
        if toPageTable = 0 then
          return -1
        else
          store toDir (entry7 toPageTable)
          upTo nr (copyEntry (pageAddr f / 4) (toPageTable / 4))
          copyDirs nr n (fromDir + 1) (toDir + 1)
      else
        copyDirs nr n (fromDir + 1) (toDir + 1)

/-- `copy_page_tables`. From address 0 only the first 160 entries of a table
are copied. -/
def copyPageTables (from_ to_ size : Nat) : MM Int := do
  if from_ &&& 0x3fffff ≠ 0 ∨ to_ &&& 0x3fffff ≠ 0 then
    throw (.panic .copyWrongAlignment)
  else
    let n := ((size + 0x3fffff) % 2 ^ 32) >>> 22
    copyDirs (if from_ = 0 then 0xA0 else 1024) n (dirEntry from_) (dirEntry to_)

/-- `put_page`: map a page at a linear address; 0 if no page table could be
had. -/
def putPage (page address : Nat) : MM Nat := do
  let d ← load (dirEntry address)
  if present d then
    store (pageAddr d / 4 + tableIndex address) (entry7 page)
    return page
  else
    let tmp ← getFreePage
    if tmp = 0 then
      return 0
    else
      store (dirEntry address) (entry7 tmp)
      store (tmp / 4 + tableIndex address) (entry7 page)
      return page

/-! ## Leaving, faults and write protection -/

/-- The memory part of `do_exit`: both segments of the calling task are
freed. -/
def exitMm (cur : Ldt) : MM Unit := do
  let _ ← freePageTables cur.codeBase cur.codeLimit
  let _ ← freePageTables cur.dataBase cur.dataLimit
  return ()

/-- `oom`: the calling task leaves through `do_exit(SIGSEGV)`. -/
def oom (cur : Ldt) : MM Unit := do
  exitMm cur
  throw .exit

/-- `un_wp_page`. -/
def unWpPage (cur : Ldt) (tableEntry : Nat) : MM Unit := do
  let w ← load tableEntry
  let oldPage := pageAddr w
  let s ← get
  if oldPage ≥ lowMem ∧ s.memMap (mapNr oldPage) = 1 then
    store tableEntry (w ||| 2#32)
  else
    let newPage ← getFreePage
    if newPage = 0 then
      oom cur
    else
      if oldPage ≥ lowMem then
        let s ← get
        setMemMap (mapNr oldPage) ((s.memMap (mapNr oldPage) + 255) % 256)
        store tableEntry (entry7 newPage)
        copyPage oldPage newPage
      else
        store tableEntry (entry7 newPage)
        copyPage oldPage newPage

/-- `do_wp_page`. -/
def doWpPage (cur : Ldt) (address : Nat) : MM Unit := do
  let d ← load (dirEntry address)
  unWpPage cur (tableIndex address + pageAddr d / 4)

/-- `write_verify`. -/
def writeVerify (cur : Ldt) (address : Nat) : MM Unit := do
  let d ← load (dirEntry address)
  if present d then
    let e := pageAddr d / 4 + tableIndex address
    let w ← load e
    if w &&& 3#32 = 1#32 then
      unWpPage cur e
    else
      return ()
  else
    return ()

/-- `get_empty_page`. -/
def getEmptyPage (cur : Ldt) (address : Nat) : MM Unit := do
  let tmp ← getFreePage
  if tmp = 0 then
    freePage tmp
    oom cur
  else
    let r ← putPage tmp address
    if r = 0 then
      freePage tmp
      oom cur
    else
      return ()

/-! ## Fork and start-up -/

/-- `copy_mem`: the child's segments and 0, or `-ENOMEM`. -/
def copyMem (nr : Nat) (cur : Ldt) : MM (Int × Ldt) := do
  if cur.dataBase ≠ cur.codeBase then
    throw (.panic .separateID)
  else if cur.dataLimit < cur.codeLimit then
    throw (.panic .badDataLimit)
  else
    let newBase := nr * 0x4000000
    let child := { cur with codeBase := newBase, dataBase := newBase }
    let r ← copyPageTables cur.dataBase newBase cur.dataLimit
    if r ≠ 0 then
      let _ ← freePageTables newBase cur.dataLimit
      return (-12, child)
    else
      return (0, child)

/-- `mem_init`: the first loop marks every page used, the second marks those
from `start_mem` to `end_mem` free. -/
def memInit (phys : Nat → Word) (startMem endMem : Nat) : Mem where
  phys := phys
  memMap := fun i =>
    if mapNr startMem ≤ i ∧ i < mapNr startMem + (endMem - startMem) >>> 12 then 0 else used
  highMemory := endMem

end Linux011.Mm
