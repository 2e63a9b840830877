import Linux011.Lib.Coop
import Linux011.Fs.Buffer
import Mathlib.Algebra.Group.Nat.Defs

/-!
# Buffer cache — the code that sleeps

The rest of `fs/buffer.c`, the requests of `kernel/blk_drv/ll_rw_blk.c` and
the reads and writes of `fs/block_dev.c`, as programs of cooperative tasks.
Every loop that may sleep is a procedure; a `goto` is a call.

Request queues are served in any order: an interrupt ends any pending request.
The inode table, which `sync_inodes` writes out, is not modelled: what it
holds is asked. Copies between user space and a buffer do not sleep.

* `Proc`, `body` — the procedures;
* `getblk`, `bread`, `breada`, `brelse`, `syncDev`, `sysSync`, `llRwBlock`,
  `blockRead`, `blockWrite` — what callers see;
* `Completes` — what an interrupt does.
-/

namespace Linux011.Fs

open Linux011.Lib

inductive Rw
  | read
  | write
  | reada
  | writea
deriving DecidableEq

/-- A pending request: `cmd` is `READ` or `WRITE`. Its two sectors are those of
the block. -/
structure Request where
  write : Bool
  bh    : Nat
  dev   : UInt16
  block : UInt32

/-- What the tasks share. `request i` is `none` if the slot is free (`dev` is
negative), `requestFn` says which majors have a driver, `mounted` which devices
have inodes in core. `disk` is what the devices hold, `last` the byte last
written at each position of a device by `block_write`. -/
structure Cache where
  buf       : Buffers
  data      : Nat → Nat → UInt8
  request   : Nat → Option Request
  requestFn : Nat → Bool
  mounted   : UInt16 → Bool
  disk      : UInt16 → UInt32 → Nat → UInt8
  last      : UInt16 → Nat → UInt8

def blockSize : Nat := 1024
def nrRequest : Nat := 32
def nrBlkDev : Nat := 7
def nrInode : Nat := 32

/-- The actions a specification may speak of: `getblk` takes a head over, a
request is queued, `block_write` and `block_read` copy bytes from and to the
user: from offset `offset` of the buffer of a block, which is position `pos` of
the device. -/
inductive Tag
  | takeover (bh : Nat) (dev : UInt16) (block : UInt32)
  | request (write : Bool) (bh : Nat)
  | copyIn (bh : Nat) (dev : UInt16) (block : UInt32) (offset : Nat) (pos : UInt32)
      (chars : Nat)
  | copyOut (bh : Nat) (dev : UInt16) (block : UInt32) (offset : Nat) (pos : UInt32)
      (chars : Nat)
deriving DecidableEq

/-- The procedures. -/
inductive Proc
  | waitOnBuffer (bh : Nat)
  | lockBuffer (bh : Nat)
  | queueRequest (write ahead : Bool) (bh : Nat)
  | getHashTable (dev : UInt16) (block : UInt32)
  | getblk (dev : UInt16) (block : UInt32)
  | scan (dev : UInt16) (block : UInt32) (tmp : Nat) (bh : Option Nat)
  | clean (dev : UInt16) (block : UInt32) (bh : Nat)
  | syncPass (dev : Option UInt16) (i : Nat)
  | syncInodes (i : Nat)
  | readAhead (dev : UInt16) (bh : Nat) (args : List UInt32)
  | invalidate (dev : UInt16) (i : Nat)
  | blockWrite (dev : UInt16) (block : UInt32) (offset : Nat) (pos : UInt32) (buf : List UInt8)
      (written : Nat)
  | blockRead (dev : UInt16) (block : UInt32) (offset : Nat) (pos : UInt32) (count : Nat)
      (read : Nat)

/-- Results: a pointer, or the number of bytes moved; `none` is a null pointer
or an error. -/
abbrev Ret : Type := Option Nat

abbrev M : Type → Type := Code Cache Tag Proc Ret

namespace Cache

def setCount (s : Cache) (bh c : Nat) : Cache :=
  { s with buf := { s.buf with count := Function.update s.buf.count bh c } }

def setLock (s : Cache) (bh : Nat) (b : Bool) : Cache :=
  { s with buf := { s.buf with lock := Function.update s.buf.lock bh b } }

def setDirt (s : Cache) (bh : Nat) (b : Bool) : Cache :=
  { s with buf := { s.buf with dirt := Function.update s.buf.dirt bh b } }

def setUptodate (s : Cache) (bh : Nat) (b : Bool) : Cache :=
  { s with buf := { s.buf with uptodate := Function.update s.buf.uptodate bh b } }

/-- `bh->b_count++`; the field is an unsigned char. -/
def incCount (s : Cache) (bh : Nat) : Cache := s.setCount bh ((s.buf.count bh + 1) % 256)

/-- `bh->b_count--`. -/
def decCount (s : Cache) (bh : Nat) : Cache := s.setCount bh ((s.buf.count bh + 255) % 256)

/-- The end of `getblk`. Where `remove_from_queues` would panic nothing is
done; the code looks at this first. -/
def takeover (s : Cache) (bh : Nat) (dev : UInt16) (block : UInt32) : Cache :=
  { s with buf := (Fs.takeover bh dev block s.buf).getD s.buf }

/-- `BADNESS`. -/
def badness (s : Cache) (bh : Nat) : Nat :=
  (s.buf.dirt bh).toNat * 2 + (s.buf.lock bh).toNat

/-- The request is filled in and added to the queue of its device; the buffer
is no longer dirty. -/
def addRequest (s : Cache) (i : Nat) (write : Bool) (bh : Nat) : Cache :=
  let r : Request := ⟨write, bh, s.buf.dev bh, s.buf.blocknr bh⟩
  { s with request := Function.update s.request i (some r) }.setDirt bh false

/-- The search for an empty request below slot `i`, from the last one down. -/
def emptyRequest (s : Cache) : Nat → Option Nat
  | 0 => none
  | i + 1 => if (s.request i).isNone then some i else s.emptyRequest i

/-- `block_write` copies user bytes to offset `offset` of a buffer. -/
def copyIn (s : Cache) (bh : Nat) (dev : UInt16) (pos : UInt32) (offset : Nat)
    (bytes : List UInt8) : Cache :=
  { s with
    data := Function.update s.data bh fun j =>
      (if offset ≤ j then bytes[j - offset]? else none).getD (s.data bh j)
    last := Function.update s.last dev fun p =>
      (if pos.toNat ≤ p then bytes[p - pos.toNat]? else none).getD (s.last dev p) }.setDirt bh true

/-- `write_inode` copies an inode of 32 bytes to record `i` of a buffer. -/
def putInode (s : Cache) (bh i v : Nat) : Cache :=
  { s with
    data := Function.update s.data bh fun j =>
      if j / 32 = i then UInt8.ofNat (v / 256 ^ (j % 32)) else s.data bh j }.setDirt bh true

end Cache

/-! ## Requests -/

/-- `wait_on_buffer`. -/
def waitOnBuffer (bh : Nat) : M Unit := do
  let _ ← Code.call (Proc.waitOnBuffer bh)

/-- `lock_buffer`. -/
def lockBuffer (bh : Nat) : M Unit := do
  let _ ← Code.call (Proc.lockBuffer bh)

/-- `unlock_buffer`. -/
def unlockBuffer (bh : Nat) : M Unit := Code.modify fun s => s.setLock bh false

/-- `make_request`. -/
def makeRequest (rw : Rw) (bh : Nat) : M Unit := do
  let ahead : Bool := rw = .reada ∨ rw = .writea
  -- a locked buffer is not worth waiting for when reading ahead
  let locked ← Code.read fun s => s.buf.lock bh
  if ahead ∧ locked then pure ()
  else do
    let write : Bool := rw = .write ∨ rw = .writea
    lockBuffer bh
    let useless ← Code.read fun s =>
      (write && !s.buf.dirt bh) || (!write && s.buf.uptodate bh)
    if useless then unlockBuffer bh
    else do
      let _ ← Code.call (Proc.queueRequest write ahead bh)

/-- `ll_rw_block`. -/
def llRwBlock (rw : Rw) (bh : Nat) : M Unit := do
  let driver ← Code.read fun s =>
    let major := s.buf.dev bh >>> 8
    decide (major.toNat < nrBlkDev) && s.requestFn major.toNat
  Code.when driver (makeRequest rw bh)

/-- The `repeat` loop of `make_request`: writes leave the last third of the
slots to reads. -/
def queueRequestBody (write ahead : Bool) (bh : Nat) : M Ret := do
  let slot ← Code.read fun s => s.emptyRequest (if write then nrRequest * 2 / 3 else nrRequest)
  match slot with
  | some i => do
    Code.atom (.request write bh) fun s => s.addRequest i write bh
    pure none
  | none =>
    if ahead then do
      unlockBuffer bh
      pure none
    else do
      Code.sleep
      Code.call (Proc.queueRequest write ahead bh)

def waitOnBufferBody (bh : Nat) : M Ret := do
  let locked ← Code.read fun s => s.buf.lock bh
  if locked then do
    Code.sleep
    Code.call (Proc.waitOnBuffer bh)
  else pure none

def lockBufferBody (bh : Nat) : M Ret := do
  let locked ← Code.read fun s => s.buf.lock bh
  if locked then do
    Code.sleep
    Code.call (Proc.lockBuffer bh)
  else do
    Code.modify fun s => s.setLock bh true
    pure none

/-! ## The cache -/

/-- `find_buffer`. A chain that does not end would hang the machine. -/
def findBufferM (dev : UInt16) (block : UInt32) : M (Option Nat) := do
  let found ← Code.read fun s => findBuffer s.buf dev block
  match found with
  | some bh => pure bh
  | none => Code.panic

/-- `get_hash_table`. -/
def getHashTableBody (dev : UInt16) (block : UInt32) : M Ret := do
  match ← findBufferM dev block with
  | none => pure none
  | some bh => do
    Code.modify fun s => s.incCount bh
    waitOnBuffer bh
    let same ← Code.read fun s => decide (s.buf.dev bh = dev ∧ s.buf.blocknr bh = block)
    if same then pure (some bh)
    else do
      Code.modify fun s => s.decCount bh
      Code.call (Proc.getHashTable dev block)

def getblk (dev : UInt16) (block : UInt32) : M Ret := Code.call (Proc.getblk dev block)

/-- `getblk` up to the search for a buffer to reuse; a null `free_list` is a
fault. -/
def getblkBody (dev : UInt16) (block : UInt32) : M Ret := do
  match ← Code.call (Proc.getHashTable dev block) with
  | some bh => pure (some bh)
  | none => do
    match ← Code.read fun s => s.buf.freeList with
    | some tmp => Code.call (Proc.scan dev block tmp none)
    | none => Code.panic

/-- `getblk` once a buffer is chosen: it may have been taken meanwhile. -/
def tryBuffer (dev : UInt16) (block : UInt32) (bh : Nat) : M Ret := do
  waitOnBuffer bh
  let count ← Code.read fun s => s.buf.count bh
  if count ≠ 0 then getblk dev block
  else Code.call (Proc.clean dev block bh)

/-- `getblk` after the walk along the free list. -/
def endScan (dev : UInt16) (block : UInt32) (bh : Option Nat) : M Ret := do
  match bh with
  | none => do
    Code.sleep
    getblk dev block
  | some bh => tryBuffer dev block bh

/-- `getblk`: on to the next buffer of the free list, `bh` being the best so
far. -/
def scanNext (dev : UInt16) (block : UInt32) (tmp : Nat) (bh : Option Nat) : M Ret := do
  let (succ, first) ← Code.read fun s => (s.buf.nextFree tmp, s.buf.freeList)
  match succ with
  | none => Code.panic
  | some t => if succ = first then endScan dev block bh else Code.call (Proc.scan dev block t bh)

/-- `getblk`, one round of the walk. -/
def scanBody (dev : UInt16) (block : UInt32) (tmp : Nat) (bh : Option Nat) : M Ret := do
  let count ← Code.read fun s => s.buf.count tmp
  if count ≠ 0 then scanNext dev block tmp bh
  else do
    let better ← Code.read fun s => bh.all fun bh => s.badness tmp < s.badness bh
    if better then do
      let bad ← Code.read fun s => s.badness tmp
      if bad = 0 then endScan dev block (some tmp) else scanNext dev block tmp (some tmp)
    else scanNext dev block tmp bh

/-- `sync_dev`. -/
def syncDev (dev : UInt16) : M Unit := do
  let _ ← Code.call (Proc.syncPass (some dev) 0)
  let _ ← Code.call (Proc.syncInodes 0)
  let _ ← Code.call (Proc.syncPass (some dev) 0)

/-- `getblk`, the loop that writes the chosen buffer back and the end. -/
def cleanBody (dev : UInt16) (block : UInt32) (bh : Nat) : M Ret := do
  let dirt ← Code.read fun s => s.buf.dirt bh
  if dirt then do
    let d ← Code.read fun s => s.buf.dev bh
    syncDev d
    tryBuffer dev block bh
  else do
    match ← findBufferM dev block with
    | some _ => getblk dev block
    | none => do
      let ok ← Code.read fun s => (takeover bh dev block s.buf).isSome
      if ok then do
        Code.atom (.takeover bh dev block) fun s => s.takeover bh dev block
        pure (some bh)
      else Code.panic

/-- `brelse` of a buffer; of a null pointer it does nothing. -/
def brelse (buf : Nat) : M Unit := do
  waitOnBuffer buf
  let count ← Code.read fun s => s.buf.count buf
  Code.modify fun s => s.decCount buf
  if count = 0 then Code.panic else pure ()

/-- `bread`. -/
def bread (dev : UInt16) (block : UInt32) : M Ret := do
  match ← getblk dev block with
  | none => Code.panic
  | some bh => do
    let uptodate ← Code.read fun s => s.buf.uptodate bh
    if uptodate then pure (some bh)
    else do
      llRwBlock .read bh
      waitOnBuffer bh
      let uptodate ← Code.read fun s => s.buf.uptodate bh
      if uptodate then pure (some bh)
      else do
        brelse bh
        pure none

/-- `breada`: `args` are the arguments after the first block. -/
def breada (dev : UInt16) (first : UInt32) (args : List UInt32) : M Ret := do
  match ← getblk dev first with
  | none => Code.panic
  | some bh => do
    let uptodate ← Code.read fun s => s.buf.uptodate bh
    Code.when (!uptodate) (llRwBlock .read bh)
    let _ ← Code.call (Proc.readAhead dev bh args)
    waitOnBuffer bh
    let uptodate ← Code.read fun s => s.buf.uptodate bh
    if uptodate then pure (some bh)
    else do
      brelse bh
      pure none

/-- The loop of `breada`: up to the first negative number. It is `bh` that is
read again, not the buffer of the block to come. -/
def readAheadBody (dev : UInt16) (bh : Nat) (args : List UInt32) : M Ret := do
  match args with
  | [] => pure none
  | first :: args =>
    if first.toNat < 2 ^ 31 then do
      match ← getblk dev first with
      | none => Code.call (Proc.readAhead dev bh args)
      | some tmp => do
        let uptodate ← Code.read fun s => s.buf.uptodate tmp
        Code.when (!uptodate) (llRwBlock .reada bh)
        Code.modify fun s => s.decCount tmp
        Code.call (Proc.readAhead dev bh args)
    else pure none

/-! ## Write-back -/

/-- One buffer of the loops of `sync_dev` (of one device) and `sys_sync`. -/
def syncPassBody (dev : Option UInt16) (i : Nat) : M Ret := do
  let (here, more) ← Code.read fun s =>
    (dev.all (s.buf.dev i = ·), decide (i < s.buf.nrBuffers))
  if ¬ more then pure none
  else if ¬ here then Code.call (Proc.syncPass dev (i + 1))
  else do
    waitOnBuffer i
    let dirt ← Code.read fun s => dev.all (s.buf.dev i = ·) && s.buf.dirt i
    Code.when dirt (llRwBlock .write i)
    Code.call (Proc.syncPass dev (i + 1))

/-- `write_inode` of an inode of `dev` that is record `i` of `block`. -/
def writeInode (dev : UInt16) (block : UInt32) (i v : Nat) : M Unit := do
  match ← bread dev block with
  | none => Code.panic
  | some bh => do
    Code.modify fun s => s.putInode bh i v
    brelse bh

/-- `sync_inodes` from slot `i` on. It is asked whether the slot is locked,
whether it is dirty, and what is to be written where. -/
def syncInodesBody (i : Nat) : M Ret := do
  if i < nrInode then do
    let locked ← Code.ask
    if locked ≠ 0 then do
      Code.sleep
      Code.call (Proc.syncInodes i)
    else do
      let dirt ← Code.ask
      if dirt = 0 then Code.call (Proc.syncInodes (i + 1))
      else do
        let dev ← Code.ask
        let block ← Code.ask
        let record ← Code.ask
        let v ← Code.ask
        let core ← Code.read fun s => s.mounted (UInt16.ofNat dev)
        Code.when core (writeInode (UInt16.ofNat dev) (UInt32.ofNat block) record v)
        Code.call (Proc.syncInodes (i + 1))
  else pure none

/-- `sys_sync`. -/
def sysSync : M Unit := do
  let _ ← Code.call (Proc.syncInodes 0)
  let _ ← Code.call (Proc.syncPass none 0)

/-- `invalidate_buffers` from buffer `i` on. -/
def invalidateBody (dev : UInt16) (i : Nat) : M Ret := do
  let (here, more) ← Code.read fun s => (decide (s.buf.dev i = dev), decide (i < s.buf.nrBuffers))
  if ¬ more then pure none
  else if ¬ here then Code.call (Proc.invalidate dev (i + 1))
  else do
    waitOnBuffer i
    let here ← Code.read fun s => decide (s.buf.dev i = dev)
    Code.when here (Code.modify fun s => (s.setDirt i false).setUptodate i false)
    Code.call (Proc.invalidate dev (i + 1))

/-! ## Block devices -/

/-- The buffer `block_write` stores to: a block that is written as a whole is
not read first. -/
def blockFor (dev : UInt16) (block : UInt32) (whole : Bool) : M Ret :=
  if whole then getblk dev block else breada dev block [block + 1, block + 2]

/-- The loop of `block_write`: `buf` holds the bytes still to be written. -/
def blockWriteBody (dev : UInt16) (block : UInt32) (offset : Nat) (pos : UInt32)
    (buf : List UInt8) (written : Nat) : M Ret := do
  if buf.length = 0 then pure (some written)
  else do
    let chars := min (blockSize - offset) buf.length
    match ← blockFor dev block (chars = blockSize) with
    | none => pure (if written = 0 then none else some written)
    | some bh => do
      Code.atom (.copyIn bh dev block offset pos chars) fun s =>
        s.copyIn bh dev pos offset (buf.take chars)
      brelse bh
      Code.call (Proc.blockWrite dev (block + 1) 0 (pos + UInt32.ofNat chars) (buf.drop chars)
        (written + chars))

/-- `block_write`: the position is signed, so the shift is arithmetic. -/
def blockWrite (dev : UInt16) (pos : UInt32) (buf : List UInt8) : M Ret :=
  Code.call (Proc.blockWrite dev (pos.toInt32 >>> 10).toUInt32 (pos.toNat % blockSize) pos buf 0)

/-- The loop of `block_read`. -/
def blockReadBody (dev : UInt16) (block : UInt32) (offset : Nat) (pos : UInt32) (count : Nat)
    (read : Nat) : M Ret := do
  if count = 0 then pure (some read)
  else do
    let chars := min (blockSize - offset) count
    match ← breada dev block [block + 1, block + 2] with
    | none => pure (if read = 0 then none else some read)
    | some bh => do
      Code.atom (.copyOut bh dev block offset pos chars) id
      brelse bh
      Code.call (Proc.blockRead dev (block + 1) 0 (pos + UInt32.ofNat chars) (count - chars)
        (read + chars))

/-- `block_read`: the position is unsigned. -/
def blockRead (dev : UInt16) (pos : UInt32) (count : Nat) : M Ret :=
  Code.call (Proc.blockRead dev (pos >>> 10) (pos.toNat % blockSize) pos count 0)

/-- What the procedures do. -/
def body : Proc → M Ret
  | .waitOnBuffer bh => waitOnBufferBody bh
  | .lockBuffer bh => lockBufferBody bh
  | .queueRequest write ahead bh => queueRequestBody write ahead bh
  | .getHashTable dev block => getHashTableBody dev block
  | .getblk dev block => getblkBody dev block
  | .scan dev block tmp bh => scanBody dev block tmp bh
  | .clean dev block bh => cleanBody dev block bh
  | .syncPass dev i => syncPassBody dev i
  | .syncInodes i => syncInodesBody i
  | .readAhead dev bh args => readAheadBody dev bh args
  | .invalidate dev i => invalidateBody dev i
  | .blockWrite dev block offset pos buf written => blockWriteBody dev block offset pos buf written
  | .blockRead dev block offset pos count read => blockReadBody dev block offset pos count read

/-! ## Interrupts -/

/-- `end_request` of the request `r` in slot `i`. A request that fails may have
moved any bytes. -/
def Cache.endRequest (s : Cache) (i : Nat) (r : Request) (uptodate : Bool) (bytes : Nat → UInt8) :
    Cache :=
  let moved := if uptodate then (if r.write then s.data r.bh else s.disk r.dev r.block) else bytes
  let s := if r.write then
      { s with disk := Function.update s.disk r.dev (Function.update (s.disk r.dev) r.block moved) }
    else { s with data := Function.update s.data r.bh moved }
  let s := (s.setUptodate r.bh uptodate).setLock r.bh false
  { s with request := Function.update s.request i none }

/-- An interrupt ends a pending request; `fails` says whether it may fail. -/
def Completes (fails : Prop) (s s' : Cache) : Prop :=
  ∃ i r uptodate bytes, i < nrRequest ∧ s.request i = some r ∧ (uptodate = false → fails) ∧
    s' = s.endRequest i r uptodate bytes

end Linux011.Fs
