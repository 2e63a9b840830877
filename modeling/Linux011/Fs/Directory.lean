import Linux011.Lib.Wp
import Linux011.Fs.FileBlocks

/-!
# Directories — the model

`find_entry`, `add_entry`, `empty_dir` and `free_block`, down to the buffers they
hold and the bytes in them. Calls run one at a time.

`ok b` says which reads succeed for block `b` of a directory, as for files: 0 and
1 are the index blocks, 2 is the block itself. A block that `new_block` has just
cleared is up to date and needs no read; what was read before may be gone from
the cache again.

* `Dirs.hold`, `wp_touch_hold`, `wp_brelse_hold` — buffers in use;
* `Dirs.load`, `wp_bmap_lookup`, `wp_bread` — blocks of a directory;
* `bmap_created` — `create_block`, where there is no block yet.

The times and the dirt flags are not here.
-/

namespace Linux011.Fs.Directory

open Linux011.Lib ZoneMap FileData

def nameLen : Nat := 14
def entrySize : Nat := 16
def dirEntriesPerBlock : Nat := FileData.blockSize / entrySize
def rootIno : Nat := 1

/-- An inode, by its device and number. -/
abbrev Ino := Nat × Nat

/-- A buffer, by its device and block. -/
abbrev Buf := Nat × Nat

/-- The volumes and the buffers. `super` says where `get_super` finds a super
block, `cached` what `get_hash_table` finds, and `held` how often the running call
has a buffer. -/
structure Dirs where
  vol      : Nat → Vol
  super    : Nat → Bool
  imount   : Nat → Option Ino
  root     : Ino
  icount   : Ino → Nat
  cached   : Buf → Bool
  uptodate : Buf → Bool
  count    : Buf → Nat
  held     : Buf → Nat

/-- A null pointer, a buffer that the call has released, a panic; and a loop that
makes more rounds than there are. -/
inductive Fault
  | null
  | released
  | panic
  | rounds
deriving DecidableEq

abbrev DM := EStateM Fault Dirs

/-! ## Buffers -/

/-- One more user, the running call. -/
def Dirs.hold (m : Dirs) (bh : Buf) : Dirs :=
  { m with
    count := Function.update m.count bh (m.count bh + 1)
    held  := Function.update m.held bh (m.held bh + 1) }

def Dirs.drop (m : Dirs) (bh : Buf) : Dirs :=
  { m with
    count := Function.update m.count bh (m.count bh - 1)
    held  := Function.update m.held bh (m.held bh - 1) }

/-- `getblk` of a block that is found, and `get_hash_table`. -/
def getblk (bh : Buf) : DM Buf := do
  modify fun m => m.hold bh
  return bh

/-- `bh->b_data`. -/
def touch : Option Buf → DM Buf
  | none => throw .null
  | some bh => do
    let m ← get
    if m.held bh = 0 then throw .released else return bh

def brelse : Option Buf → DM Unit
  | none => return ()
  | some bh => do
    let bh ← touch (some bh)
    let m ← get
    if m.count bh = 0 then throw .panic else set (m.drop bh)

/-- `bread`; `ok` says if the block can be read. -/
def bread (ok : Bool) (bh : Buf) : DM (Option Buf) := do
  let bh ← getblk bh
  let m ← get
  if m.uptodate bh then return some bh
  else if ok then return some bh
  else do
    brelse (some bh)
    return none

/-- `bread`, unless the number of the block is 0. -/
def fetch (ok : Bool) (dev block : Nat) : DM (Option Buf) :=
  if block = 0 then return none else bread ok (dev, block)

/-! ## Zones -/

def Dirs.setDisk (m : Dirs) (dev : Nat) (disk : State) : Dirs :=
  { m with vol := Function.update m.vol dev { m.vol dev with disk := disk } }

/-- `new_block`. -/
def newBlock (dev : Nat) : DM Nat := do
  let m ← get
  let (disk, z) := (m.vol dev).disk.newBlock
  set (m.setDisk dev disk)
  if z = 0 then return 0
  else do
    let bh ← getblk (dev, z)
    let m ← get
    if m.count bh ≠ 1 then throw .panic
    else do
      modify fun m => { m with uptodate := Function.update m.uptodate bh true }
      brelse (some bh)
      return z

/-- `if (create && !i_zone[k]) i_zone[k] = new_block()`, and the zone there. -/
def fillZone (dir : Ino) (k : Nat) (create : Bool) : DM Nat := do
  let m ← get
  if create && (m.vol dir.1).disk.zone dir.2 k == 0 then
    let z ← newBlock dir.1
    modify fun m => m.setDisk dir.1 ((m.vol dir.1).disk.setZone dir.2 k z)
    return z
  else return (m.vol dir.1).disk.zone dir.2 k

/-- The same for entry `b` of the index block `w`. -/
def fillEntry (dev w b : Nat) (create : Bool) : DM Nat := do
  let m ← get
  if create && (m.vol dev).disk.block w b == 0 then
    let z ← newBlock dev
    if z = 0 then return 0
    else do
      modify fun m => m.setDisk dev ((m.vol dev).disk.setEntry w b z)
      return z
  else return (m.vol dev).disk.block w b

/-- The index block `w` is read, and released. -/
def indexEntry (dev w b : Nat) (create ok : Bool) : DM Nat := do
  match ← bread ok (dev, w) with
  | none => return 0
  | some bh =>
    let i ← fillEntry dev w b create
    brelse (some bh)
    return i

/-- `_bmap`. -/
def bmap (dir : Ino) (block : Nat) (create : Bool) (ok : Nat → Bool) : DM Nat := do
  if maxBlock ≤ block then throw .panic
  else if block < 7 then fillZone dir block create
  else if block - 7 < 512 then
    let z ← fillZone dir 7 create
    if z = 0 then return 0
    else indexEntry dir.1 z (block - 7) create (ok 0)
  else
    let z ← fillZone dir 8 create
    if z = 0 then return 0
    else
      let i ← indexEntry dir.1 z ((block - 7 - 512) >>> 9) create (ok 0)
      if i = 0 then return 0
      else indexEntry dir.1 i ((block - 7 - 512) &&& 511) create (ok 1)

/-- `free_block`. -/
def freeBlock (dev block : Nat) : DM Unit := do
  let m ← get
  let clearBit : DM Unit := do
    let m ← get
    match (m.vol dev).disk.freeBlock block with
    | none => throw .panic
    | some disk => set (m.setDisk dev disk)
  if m.super dev = false then throw .panic
  else if block < (m.vol dev).disk.firstdatazone ∨ (m.vol dev).disk.nzones ≤ block then throw .panic
  else if m.cached (dev, block) then do
    let bh ← getblk (dev, block)
    let m ← get
    if m.count bh ≠ 1 then return ()
    else do
      modify fun m => { m with uptodate := Function.update m.uptodate bh false }
      brelse (some bh)
      clearBit
  else clearBit

/-! ## Entries -/

/-- `de->inode` of entry `k` in a buffer. -/
def Dirs.deInode (m : Dirs) (bh : Buf) (k : Nat) : Nat :=
  (byte (m.vol bh.1).disk bh.2 (entrySize * k)).val +
    256 * (byte (m.vol bh.1).disk bh.2 (entrySize * k + 1)).val

/-- `de->name[j]`. -/
def Dirs.deName (m : Dirs) (bh : Buf) (k j : Nat) : Byte :=
  byte (m.vol bh.1).disk bh.2 (entrySize * k + 2 + j)

def Dirs.setInode (m : Dirs) (bh : Buf) (k v : Nat) : Dirs :=
  m.setDisk bh.1 (putBytes (m.vol bh.1).disk bh.2 (entrySize * k)
    [Fin.ofNat 256 v, Fin.ofNat 256 (v / 256)])

def Dirs.size (m : Dirs) (dir : Ino) : Nat := (m.vol dir.1).size dir.2

def Dirs.setSize (m : Dirs) (dir : Ino) (size : Nat) : Dirs :=
  { m with
    vol := Function.update m.vol dir.1
      { m.vol dir.1 with size := Function.update (m.vol dir.1).size dir.2 size } }

/-- `match`. -/
def Dirs.match (m : Dirs) (name : List Byte) (bh : Buf) (k : Nat) : Bool :=
  if m.deInode bh k = 0 ∨ nameLen < name.length then false
  else if name.length < nameLen ∧ m.deName bh k name.length ≠ 0 then false
  else (List.range name.length).map (m.deName bh k) == name

/-! ## find_entry -/

/-- The loop of `find_entry`. -/
def findLoop (dir : Ino) (name : List Byte) (entries : Nat) (ok : Nat → Nat → Bool) :
    Nat → Nat → Option Buf → Nat → DM (Option (Buf × Nat))
  | 0, _, _, _ => throw .rounds
  | rounds + 1, i, bh, k => do
    if entries ≤ i then
      brelse bh
      return none
    else
      let cur ← touch bh
      if k < dirEntriesPerBlock then
        let m ← get
        if m.match name cur k then return some (cur, k)
        else findLoop dir name entries ok rounds (i + 1) (some cur) (k + 1)
      else
        brelse bh
        let b := i / dirEntriesPerBlock
        let block ← bmap dir b false (ok b)
        match ← fetch (ok b 2) dir.1 block with
        | none => findLoop dir name entries ok rounds (i + dirEntriesPerBlock) none k
        | some cur =>
          let m ← get
          if m.match name cur 0 then return some (cur, 0)
          else findLoop dir name entries ok rounds (i + 1) (some cur) 1

/-- `..` in a pseudo-root and over a mount point: the directory and the name that
the search goes on with. -/
def Dirs.goUp (m : Dirs) (dir : Ino) (name : List Byte) : Ino × List Byte :=
  if name = [46, 46] then
    if dir = m.root then (dir, [46])
    else if dir.2 = rootIno then ((m.imount dir.1).getD dir, name)
    else (dir, name)
  else (dir, name)

/-- `iput(*dir); *dir = sb->s_imount; (*dir)->i_count++`. The super block has the
root of its device as well, so that `iput` just counts. -/
def Dirs.exchange (m : Dirs) (dir dir' : Ino) : Dirs :=
  if dir' = dir then m
  else
    let icount := Function.update m.icount dir (m.icount dir - 1)
    { m with icount := Function.update icount dir' (icount dir' + 1) }

/-- `find_entry`: the directory, and the entry. -/
def findEntry (dir : Ino) (name : List Byte) (ok : Nat → Nat → Bool) :
    DM (Ino × Option (Buf × Nat)) := do
  let m ← get
  let entries := m.size dir / entrySize
  if name = [] then return (dir, none)
  else
    let (dir', name) := m.goUp dir (name.take nameLen)
    set (m.exchange dir dir')
    let block := (m.vol dir'.1).disk.zone dir'.2 0
    match ← fetch (ok 0 2) dir'.1 block with
    | none => return (dir', none)
    | some bh =>
      let r ← findLoop dir' name entries ok (entries + 1) 0 (some bh) 0
      return (dir', r)

/-! ## add_entry -/

/-- The name is put into entry `k`, with zeros behind it. -/
def Dirs.putName (m : Dirs) (bh : Buf) (k : Nat) (name : List Byte) : Dirs :=
  m.setDisk bh.1 (putBytes (m.vol bh.1).disk bh.2 (entrySize * k + 2)
    ((List.range nameLen).map fun j => name.getD j 0))

/-- Entry `i`, which is entry `k` of the buffer, is taken if it is free or past
the end. `_bmap` stops the loop long before `i * 16` gets to 32 bits. -/
def takeEntry (dir : Ino) (name : List Byte) (i : Nat) (bh : Buf) (k : Nat) : DM Bool := do
  let m ← get
  if m.size dir ≤ i * entrySize then
    set ((m.setInode bh k 0).setSize dir ((i + 1) * entrySize))
  let m ← get
  if m.deInode bh k = 0 then
    set (m.putName bh k name)
    return true
  else return false

/-- The loop of `add_entry`. -/
def addLoop (dir : Ino) (name : List Byte) (ok : Nat → Nat → Bool) :
    Nat → Nat → Option Buf → Nat → DM (Option (Buf × Nat))
  | 0, _, _, _ => throw .rounds
  | rounds + 1, i, bh, k => do
    let cur ← touch bh
    if k < dirEntriesPerBlock then
      if ← takeEntry dir name i cur k then return some (cur, k)
      else addLoop dir name ok rounds (i + 1) (some cur) (k + 1)
    else
      brelse bh
      let b := i / dirEntriesPerBlock
      let block ← bmap dir b true (ok b)
      if block = 0 then return none
      else
        match ← bread (ok b 2) (dir.1, block) with
        | none => addLoop dir name ok rounds (i + dirEntriesPerBlock) none k
        | some cur =>
          if ← takeEntry dir name i cur 0 then return some (cur, 0)
          else addLoop dir name ok rounds (i + 1) (some cur) 1

/-- `add_entry`. -/
def addEntry (dir : Ino) (name : List Byte) (ok : Nat → Nat → Bool) :
    DM (Option (Buf × Nat)) := do
  let m ← get
  if name = [] then return none
  else
    let block := (m.vol dir.1).disk.zone dir.2 0
    match ← fetch (ok 0 2) dir.1 block with
    | none => return none
    | some bh => addLoop dir (name.take nameLen) ok (m.size dir / entrySize + 3) 0 (some bh) 0

/-! ## empty_dir -/

/-- The loop of `empty_dir`; nobody sets `bh` to null. -/
def emptyLoop (dir : Ino) (len : Nat) (ok : Nat → Nat → Bool) : Nat → Nat → Buf → Nat → DM Bool
  | 0, _, _, _ => throw .rounds
  | rounds + 1, nr, bh, k => do
    if len ≤ nr then
      brelse (some bh)
      return true
    else
      let cur ← touch (some bh)
      if k < dirEntriesPerBlock then
        let m ← get
        if m.deInode cur k ≠ 0 then
          brelse (some cur)
          return false
        else emptyLoop dir len ok rounds (nr + 1) cur (k + 1)
      else
        brelse (some bh)
        let b := nr / dirEntriesPerBlock
        let block ← bmap dir b false (ok b)
        if block = 0 then emptyLoop dir len ok rounds (nr + dirEntriesPerBlock) bh k
        else
          match ← bread (ok b 2) (dir.1, block) with
          | none => return false
          | some cur =>
            let m ← get
            if m.deInode cur 0 ≠ 0 then
              brelse (some cur)
              return false
            else emptyLoop dir len ok rounds (nr + 1) cur 1

/-- `.` and `..` are where they belong. -/
def Dirs.headed (m : Dirs) (dir : Ino) (bh : Buf) : Bool :=
  m.deInode bh 0 == dir.2 && m.deInode bh 1 != 0 &&
    (m.deName bh 0 0 == 46 && m.deName bh 0 1 == 0) &&
    (m.deName bh 1 0 == 46 && m.deName bh 1 1 == 46 && m.deName bh 1 2 == 0)

/-- `empty_dir`. -/
def emptyDir (dir : Ino) (ok : Nat → Nat → Bool) : DM Bool := do
  let m ← get
  let len := m.size dir / entrySize
  let block := (m.vol dir.1).disk.zone dir.2 0
  if len < 2 ∨ block = 0 then return false
  else
    match ← bread (ok 0 2) (dir.1, block) with
    | none => return false
    | some bh =>
      let m ← get
      if m.headed dir bh = false then return false
      else emptyLoop dir len ok (len + 1) 2 bh 2

/-! ## Entries and blocks -/

section Entries

variable {i k b c : Nat}

/-- Entry `i` is entry `k` of block `c`. -/
theorem entry_div (hk : k < dirEntriesPerBlock) (hi : i = dirEntriesPerBlock * c + k) :
    i / dirEntriesPerBlock = c ∧ i % dirEntriesPerBlock = k := by
  constructor
  · rw [hi, Nat.mul_add_div (by decide), Nat.div_eq_of_lt hk, Nat.add_zero]
  · rw [hi, Nat.mul_add_mod, Nat.mod_eq_of_lt hk]

theorem entry_block (hk : k < dirEntriesPerBlock)
    (hi : i = dirEntriesPerBlock * c + k) (hb : i = dirEntriesPerBlock * b) : b = c := by
  rw [← (entry_div hk hi).1, hb, Nat.mul_div_cancel_left _ (by decide)]

/-- The scan has come to the end of block `c`. -/
theorem entry_next (hk : k ≤ dirEntriesPerBlock) (hend : ¬ k < dirEntriesPerBlock)
    (hi : i = dirEntriesPerBlock * c + k) :
    i = dirEntriesPerBlock * (c + 1) ∧ i / dirEntriesPerBlock = c + 1 := by
  have hnext : i = dirEntriesPerBlock * (c + 1) := by
    rw [Nat.mul_succ]
    omega
  exact ⟨hnext, by rw [hnext, Nat.mul_div_cancel_left _ (by decide)]⟩

end Entries

/-! ## Buffers in use -/

variable {m : Dirs} {bh : Buf} {E : Fault → Dirs → Prop}

@[simp] theorem hold_vol (m : Dirs) (bh : Buf) : (m.hold bh).vol = m.vol := rfl

@[simp] theorem hold_uptodate (m : Dirs) (bh : Buf) : (m.hold bh).uptodate = m.uptodate := rfl

@[simp] theorem drop_hold (m : Dirs) (bh : Buf) : (m.hold bh).drop bh = m := by
  simp [Dirs.hold, Dirs.drop]

@[simp] theorem wp_getblk {Q : Buf → Dirs → Prop} : wp (getblk bh) Q E m ↔ Q bh (m.hold bh) :=
  Iff.rfl

@[simp] theorem wp_touch_none {Q : Buf → Dirs → Prop} : wp (touch none) Q E m ↔ E .null m := Iff.rfl

/-- A buffer that the call has. -/
theorem wp_touch_held {Q : Buf → Dirs → Prop} (h : m.held bh ≠ 0) :
    wp (touch (some bh)) Q E m ↔ Q bh m := by
  simp [touch, h]

theorem wp_touch_released {Q : Buf → Dirs → Prop} (h : m.held bh = 0) :
    wp (touch (some bh)) Q E m ↔ E .released m := by
  simp [touch, h]

@[simp] theorem wp_touch_hold {Q : Buf → Dirs → Prop} :
    wp (touch (some bh)) Q E (m.hold bh) ↔ Q bh (m.hold bh) :=
  wp_touch_held (by simp [Dirs.hold])

@[simp] theorem wp_brelse_none {Q : Unit → Dirs → Prop} : wp (brelse none) Q E m ↔ Q () m := Iff.rfl

theorem wp_brelse_released {Q : Unit → Dirs → Prop} (h : m.held bh = 0) :
    wp (brelse (some bh)) Q E m ↔ E .released m := by
  simp [brelse, wp_touch_released h]

/-- A buffer in use is released. -/
theorem wp_brelse {Q : Unit → Dirs → Prop} (hheld : m.held bh ≠ 0) (hcount : m.count bh ≠ 0) :
    wp (brelse (some bh)) Q E m ↔ Q () (m.drop bh) := by
  simp [brelse, wp_touch_held hheld, hcount]

@[simp] theorem wp_brelse_hold {Q : Unit → Dirs → Prop} :
    wp (brelse (some bh)) Q E (m.hold bh) ↔ Q () m := by
  rw [wp_brelse (by simp [Dirs.hold]) (by simp [Dirs.hold]), drop_hold]

/-- The block can be read, or need not be. -/
def Dirs.readable (m : Dirs) (ok : Bool) (bh : Buf) : Bool := m.uptodate bh || ok

theorem wp_bread {ok : Bool} {Q : Option Buf → Dirs → Prop} :
    wp (bread ok bh) Q E m ↔
      if m.readable ok bh then Q (some bh) (m.hold bh) else Q none m := by
  unfold bread Dirs.readable
  by_cases hup : m.uptodate bh
  · simp [hup]
  · by_cases hok : ok <;> simp [hup, hok]

/-! ## Blocks of a directory -/

/-- The number in an index block; 0 if there is no such block, or it cannot be
read. -/
def Dirs.indexed (m : Dirs) (dev w b : Nat) (ok : Bool) : Nat :=
  if w = 0 then 0 else if m.readable ok (dev, w) then (m.vol dev).disk.block w b else 0

/-- What `bmap` returns. -/
def Dirs.zoneOf (m : Dirs) (dir : Ino) (b : Nat) (ok : Nat → Bool) : Nat :=
  if b < 7 then (m.vol dir.1).disk.zone dir.2 b
  else if b - 7 < 512 then m.indexed dir.1 ((m.vol dir.1).disk.zone dir.2 7) (b - 7) (ok 0)
  else m.indexed dir.1
    (m.indexed dir.1 ((m.vol dir.1).disk.zone dir.2 8) ((b - 7 - 512) >>> 9) (ok 0))
    ((b - 7 - 512) &&& 511) (ok 1)

/-- The buffer of a block, if it is there and can be read. -/
def Dirs.load (m : Dirs) (dir : Ino) (b : Nat) (ok : Nat → Bool) : Option Buf :=
  if m.zoneOf dir b ok = 0 then none
  else if m.readable (ok 2) (dir.1, m.zoneOf dir b ok) then some (dir.1, m.zoneOf dir b ok)
  else none

variable {dir : Ino} {b : Nat} {ok : Nat → Bool} {Q : Nat → Dirs → Prop}

theorem wp_fillZone_lookup {k : Nat} {create : Bool}
    (h : create = true → (m.vol dir.1).disk.zone dir.2 k ≠ 0) :
    wp (fillZone dir k create) Q E m ↔ Q ((m.vol dir.1).disk.zone dir.2 k) m := by
  unfold fillZone
  cases create <;> simp_all

/-- An index block is looked at. -/
theorem wp_indexEntry_lookup {dev w : Nat} {create okw : Bool} (hw : w ≠ 0)
    (h : create = true → m.readable okw (dev, w) = true → (m.vol dev).disk.block w b ≠ 0) :
    wp (indexEntry dev w b create okw) Q E m ↔ Q (m.indexed dev w b okw) m := by
  unfold indexEntry Dirs.indexed fillEntry
  rw [if_neg hw, wp_bind, wp_bread]
  by_cases hr : m.readable okw (dev, w) = true
  · rw [if_pos hr, if_pos hr]
    cases create <;> simp_all
  · rw [if_neg hr, if_neg hr]
    exact Iff.rfl

theorem indexed_zero (m : Dirs) (dev b : Nat) (okw : Bool) : m.indexed dev 0 b okw = 0 := by
  simp [Dirs.indexed]

theorem indexed_ne {dev w : Nat} {okw : Bool} (h : m.indexed dev w b okw ≠ 0) :
    w ≠ 0 ∧ m.readable okw (dev, w) = true ∧
      m.indexed dev w b okw = (m.vol dev).disk.block w b := by
  unfold Dirs.indexed at h ⊢
  split_ifs at h ⊢ <;> simp_all

/-- A block is looked up: by `bmap`, or by `create_block` if it is there. -/
theorem wp_bmap_lookup {create : Bool} (h : create = true → m.zoneOf dir b ok ≠ 0) :
    wp (bmap dir b create ok) Q E m ↔
      if maxBlock ≤ b then E .panic m else Q (m.zoneOf dir b ok) m := by
  unfold bmap
  by_cases hmax : maxBlock ≤ b
  · simp [hmax]
  rw [if_neg hmax, if_neg hmax]
  unfold Dirs.zoneOf at h ⊢
  by_cases h7 : b < 7
  · rw [if_pos h7] at h
    rw [if_pos h7, if_pos h7]
    exact wp_fillZone_lookup h
  rw [if_neg h7] at h
  rw [if_neg h7, if_neg h7]
  by_cases h512 : b - 7 < 512
  · rw [if_pos h512] at h
    rw [if_pos h512, if_pos h512, wp_bind,
      wp_fillZone_lookup fun hc => (indexed_ne (h hc)).1]
    by_cases hz : (m.vol dir.1).disk.zone dir.2 7 = 0
    · simp [hz, indexed_zero]
    · rw [if_neg hz, wp_indexEntry_lookup hz]
      intro hc _
      exact (indexed_ne (h hc)).2.2 ▸ h hc
  · rw [if_neg h512] at h
    rw [if_neg h512, if_neg h512, wp_bind,
      wp_fillZone_lookup fun hc => (indexed_ne (indexed_ne (h hc)).1).1]
    by_cases hz : (m.vol dir.1).disk.zone dir.2 8 = 0
    · simp [hz, indexed_zero]
    · rw [if_neg hz, wp_bind, wp_indexEntry_lookup hz]
      · by_cases hi : m.indexed dir.1 ((m.vol dir.1).disk.zone dir.2 8) ((b - 7 - 512) >>> 9) (ok 0) = 0
        · simp [hi, indexed_zero]
        · rw [if_neg hi, wp_indexEntry_lookup hi]
          intro hc _
          exact (indexed_ne (h hc)).2.2 ▸ h hc
      · intro hc _
        have hi := (indexed_ne (h hc)).1
        exact (indexed_ne hi).2.2 ▸ hi

@[simp] theorem zoneOf_zero (m : Dirs) (dir : Ino) (ok : Nat → Bool) :
    m.zoneOf dir 0 ok = (m.vol dir.1).disk.zone dir.2 0 := rfl

/-- The block that was looked up is read. -/
theorem wp_fetch {R : Option Buf → Dirs → Prop} :
      wp (fetch (ok 2) dir.1 (m.zoneOf dir b ok)) R E m ↔
      match m.load dir b ok with
      | none => R none m
      | some bh => R (some bh) (m.hold bh) := by
  unfold fetch Dirs.load
  by_cases hz : m.zoneOf dir b ok = 0
  · simp [hz]
  · rw [if_neg hz, if_neg hz, wp_bread]
    split_ifs <;> exact Iff.rfl

/-! ## create_block -/

/-- `y` is no zone, or a new one: up to date, and all zeros. -/
structure Created (m m' : Dirs) (dev y : Nat) : Prop where
  count  : m'.count = m.count
  held   : m'.held = m.held
  fresh  : y ≠ 0 → m'.uptodate (dev, y) = true ∧ (m'.vol dev).disk.block y = fun _ => 0

theorem newBlock_created (m : Dirs) (dev : Nat) :
    wp (newBlock dev) (fun y m' => Created m m' dev y ∧ (y ≠ 0 → m.count (dev, y) = 0))
      (fun e _ => e = .panic) m := by
  have hzero : (m.vol dev).disk.newBlock.2 ≠ 0 →
      (m.vol dev).disk.newBlock.1.block (m.vol dev).disk.newBlock.2 = fun _ => 0 := by
    unfold State.newBlock
    split
    · intro h
      exact absurd rfl h
    · dsimp only
      split_ifs
      · intro h
        exact absurd rfl h
      · intro _
        exact Function.update_self ..
  unfold newBlock
  rw [wp_bind, wp_get]
  generalize (m.vol dev).disk.newBlock = r at hzero
  obtain ⟨disk, z⟩ := r
  by_cases hz : z = 0
  · subst hz
    simpa using ⟨rfl, rfl, fun h => absurd rfl h⟩
  · by_cases hcount : m.count (dev, z) = 0
    · have hone : ((m.setDisk dev disk).hold (dev, z)).count (dev, z) = 1 := by
        simp [Dirs.setDisk, Dirs.hold, hcount]
      simp [hz, hone]
      rw [wp_brelse (by simp [Dirs.hold]) (by simp [Dirs.hold])]
      refine ⟨⟨?_, ?_, fun _ => ⟨?_, ?_⟩⟩, hcount⟩
      all_goals simp [Dirs.drop, Dirs.hold, Dirs.setDisk]
      exact hzero hz
    · simp [hz, Dirs.hold, Dirs.setDisk, hcount]

theorem created_none (m : Dirs) (dev : Nat) : Created m m dev 0 := ⟨rfl, rfl, fun h => absurd rfl h⟩

theorem Created.trans {m₁ m₂ : Dirs} {dev y z : Nat} (h : Created m m₁ dev y)
    (h' : Created m₁ m₂ dev z) : Created m m₂ dev z :=
  ⟨h'.count.trans h.count, h'.held.trans h.held, h'.fresh⟩

theorem fillZone_created {k : Nat} (h : (m.vol dir.1).disk.zone dir.2 k = 0) :
    wp (fillZone dir k true) (fun y m' => Created m m' dir.1 y) (fun e _ => e = .panic) m := by
  unfold fillZone
  simp only [wp_bind, wp_get, h, Bool.true_and, beq_self_eq_true, if_true, wp_modify, wp_pure]
  refine wp_mono (newBlock_created m dir.1) ?_ fun _ _ he => he
  rintro z m' ⟨hc, _⟩
  exact ⟨hc.count, hc.held, fun hz => ⟨(hc.fresh hz).1, by
    simpa [Dirs.setDisk, State.setZone] using (hc.fresh hz).2⟩⟩

/-- A new zone is no index block in use, or `new_block` panics. -/
theorem indexEntry_created {dev w : Nat} {okw : Bool} (hw : w ≠ 0)
    (h : m.indexed dev w b okw = 0) :
    wp (indexEntry dev w b true okw) (fun y m' => Created m m' dev y) (fun e _ => e = .panic) m := by
  unfold indexEntry
  rw [wp_bind, wp_bread]
  by_cases hr : m.readable okw (dev, w) = true
  swap
  · rw [if_neg hr]
    exact created_none m dev
  have hempty : (m.vol dev).disk.block w b = 0 := by
    simpa [Dirs.indexed, hw, hr] using h
  rw [if_pos hr]
  simp only [fillEntry, wp_bind, wp_get, hold_vol, hempty, Bool.true_and, beq_self_eq_true, if_true]
  refine wp_mono (newBlock_created (m.hold (dev, w)) dev) ?_ fun _ _ he => he
  rintro z m' ⟨hc, hunused⟩
  have hback : ∀ m₁ : Dirs, m₁.count = m'.count → m₁.held = m'.held →
      ∀ Q : Unit → Dirs → Prop, Q () (m₁.drop (dev, w)) →
        wp (brelse (some (dev, w))) Q (fun e _ => e = .panic) m₁ := by
    intro m₁ hcount hheld Q hQ
    rw [wp_brelse]
    · exact hQ
    · simp [hheld, hc.held, Dirs.hold]
    · simp [hcount, hc.count, Dirs.hold]
  have hcount : ∀ m₁ : Dirs, m₁.count = m'.count → (m₁.drop (dev, w)).count = m.count := by
    intro m₁ h₁
    simp [Dirs.drop, h₁, hc.count, Dirs.hold]
  have hheld : ∀ m₁ : Dirs, m₁.held = m'.held → (m₁.drop (dev, w)).held = m.held := by
    intro m₁ h₁
    simp [Dirs.drop, h₁, hc.held, Dirs.hold]
  by_cases hz : z = 0
  · simp only [hz, if_true, wp_pure]
    exact hback m' rfl rfl _ ⟨hcount m' rfl, hheld m' rfl, fun h₀ => absurd rfl h₀⟩
  · have hzw : z ≠ w := by
      rintro rfl
      have := hunused hz
      simp [Dirs.hold] at this
    simp only [if_neg hz, wp_bind, wp_modify, wp_pure]
    have hstored := hback (m'.setDisk dev ((m'.vol dev).disk.setEntry w b z)) rfl rfl
    refine hstored _ ⟨hcount _ rfl, hheld _ rfl, fun _ => ⟨(hc.fresh hz).1, ?_⟩⟩
    simp [Dirs.drop, Dirs.setDisk, State.setEntry, Function.update_of_ne hzw, (hc.fresh hz).2]

/-- The entry of a new index block. -/
theorem indexEntry_new {m₁ : Dirs} {dev w : Nat} {okw : Bool} (hc : Created m m₁ dev w) (hw : w ≠ 0) :
    wp (indexEntry dev w b true okw) (fun y m' => Created m m' dev y) (fun e _ => e = .panic) m₁ := by
  have hempty : m₁.indexed dev w b okw = 0 := by
    simp [Dirs.indexed, (hc.fresh hw).2]
  exact wp_mono (indexEntry_created hw hempty) (fun _ _ h => hc.trans h) fun _ _ he => he

/-- **`create_block`** of a block that is not there. -/
theorem bmap_created (h : m.zoneOf dir b ok = 0) :
    wp (bmap dir b true ok) (fun y m' => Created m m' dir.1 y) (fun e _ => e = .panic) m := by
  unfold bmap
  by_cases hmax : maxBlock ≤ b
  · simp [hmax]
  rw [if_neg hmax]
  unfold Dirs.zoneOf at h
  by_cases h7 : b < 7
  · rw [if_pos h7] at h
    rw [if_pos h7]
    exact fillZone_created h
  rw [if_neg h7] at h
  rw [if_neg h7]
  by_cases h512 : b - 7 < 512
  · rw [if_pos h512] at h
    rw [if_pos h512, wp_bind]
    by_cases hz : (m.vol dir.1).disk.zone dir.2 7 = 0
    · refine wp_mono (fillZone_created hz) ?_ fun _ _ he => he
      intro w m₁ hc
      split_ifs with hw
      · exact hw ▸ hc
      · exact indexEntry_new hc hw
    · rw [wp_fillZone_lookup fun _ => hz, if_neg hz]
      exact indexEntry_created hz h
  · rw [if_neg h512] at h
    rw [if_neg h512, wp_bind]
    -- a new block of the second level
    have hlast : ∀ (m₁ : Dirs) (i : Nat), Created m m₁ dir.1 i →
        wp (if i = 0 then pure 0 else indexEntry dir.1 i ((b - 7 - 512) &&& 511) true (ok 1))
          (fun y m' => Created m m' dir.1 y) (fun e _ => e = .panic) m₁ := by
      intro m₁ i hc
      split_ifs with hi
      · exact hi ▸ hc
      · exact indexEntry_new hc hi
    by_cases hz : (m.vol dir.1).disk.zone dir.2 8 = 0
    · refine wp_mono (fillZone_created hz) ?_ fun _ _ he => he
      intro w m₁ hc
      split_ifs with hw
      · exact hw ▸ hc
      · rw [wp_bind]
        exact wp_mono (indexEntry_new hc hw) (fun i m₂ hc₂ => hlast m₂ i hc₂) fun _ _ he => he
    · rw [wp_fillZone_lookup fun _ => hz, if_neg hz, wp_bind]
      by_cases hi : m.indexed dir.1 ((m.vol dir.1).disk.zone dir.2 8) ((b - 7 - 512) >>> 9) (ok 0) = 0
      · exact wp_mono (indexEntry_created hz hi) (fun i m₁ hc => hlast m₁ i hc) fun _ _ he => he
      · rw [wp_indexEntry_lookup hz, if_neg hi]
        · exact indexEntry_created hi h
        · intro _ _
          exact (indexed_ne hi).2.2 ▸ hi

/-! ## Entries that are taken -/

theorem deInode_setSize {k size : Nat} (m : Dirs) (dir : Ino) :
    (m.setSize dir size).deInode bh k = m.deInode bh k := by
  unfold Dirs.setSize Dirs.deInode
  by_cases hdev : bh.1 = dir.1
  · rw [hdev]
    simp
  · simp [Function.update_of_ne hdev]

theorem deInode_clear (m : Dirs) (bh : Buf) (k : Nat) : (m.setInode bh k 0).deInode bh k = 0 := by
  simp [Dirs.setInode, Dirs.deInode, Dirs.setDisk, byte_putBytes]

theorem takeEntry_used {i k : Nat} {name : List Byte} {Q : Bool → Dirs → Prop}
    (hsize : i * entrySize < m.size dir) (h : m.deInode bh k ≠ 0) :
    wp (takeEntry dir name i bh k) Q E m ↔ Q false m := by
  unfold takeEntry
  simp [Nat.not_le_of_lt hsize, h]

end Linux011.Fs.Directory
