import Linux011.Lib.Wp
import Linux011.Lib.BitWords
import Mathlib.Data.Finset.Basic
import Mathlib.Order.Interval.Finset.Nat

/-!
# The zone and inode maps

`new_block`, `free_block`, `new_inode` and `free_inode` on the maps of a mounted
device, down to the words that are searched. A map has up to eight blocks; its
bit `k` is bit `k & 8191` of block `k >> 13`.

* `searchMap_spec` — the loop over the blocks of a map, with what is left in its
  variables;
* `newBlock_spec`, `freeBlock_spec`, `newInode_spec`, `freeInode_spec` — the
  calls, as operations on sets;
* `allocators_are_sets` — over all sequences of calls;
* `freeing_clears` — a zone is always freed if nobody uses the buffers of zones.

Calls run one at a time, and `get_empty_inode` finds a slot that nobody uses.
-/

namespace Linux011.Fs.BitMaps

open Linux011.Lib Linux011.Lib.BitWords

/-! ## The device -/

/-- Bits in a block. -/
def blockBits : Nat := 8192

def mapSlots : Nat := 8

/-- A super block whose maps cover the inodes and the zones, and whose data come
after them. -/
structure Format where
  dev           : Nat
  ninodes       : Nat
  nzones        : Nat
  imapBlocks    : Nat
  zmapBlocks    : Nat
  firstdatazone : Nat
  dev_ne        : dev ≠ 0
  imap_le       : 1 ≤ imapBlocks ∧ imapBlocks ≤ mapSlots
  zmap_le       : 1 ≤ zmapBlocks ∧ zmapBlocks ≤ mapSlots
  imap_covers   : ninodes < blockBits * imapBlocks
  zmap_covers   : nzones ≤ blockBits * zmapBlocks + (firstdatazone - 1)
  behind        : 2 + imapBlocks + zmapBlocks ≤ firstdatazone

def Format.imapStart (_ : Format) : Nat := 2

def Format.zmapStart (f : Format) : Nat := 2 + f.imapBlocks

/-- An entry of `s_imap` or `s_zmap`: the number of the block. -/
def mapAt (start blocks i : Nat) : Option Nat := if i < blocks then some (start + i) else none

def Format.imap (f : Format) : Nat → Option Nat := mapAt f.imapStart f.imapBlocks

def Format.zmap (f : Format) : Nat → Option Nat := mapAt f.zmapStart f.zmapBlocks

/-- An inode in memory; what the calls do not use is left out. -/
structure Inode where
  dev    : Nat
  num    : Nat
  count  : Nat
  nlinks : Nat
  uid    : Nat
  gid    : Nat
  dirt   : Bool
  mtime  : Nat
  atime  : Nat
  ctime  : Nat

/-- `memset(inode,0,sizeof(*inode))`. -/
def noInode : Inode := ⟨0, 0, 0, 0, 0, 0, false, 0, 0, 0⟩

/-- The buffers of the device, by their blocks, and the inodes in memory. -/
structure Alloc where
  data     : Nat → Nat → BitVec 32
  uptodate : Nat → Bool
  dirt     : Nat → Bool
  cached   : Nat → Bool
  count    : Nat → Nat
  inode    : Nat → Inode

/-- A panic, or a null pointer. -/
inductive Fault
  | panic
  | null
deriving DecidableEq

abbrev AM := EStateM Fault Alloc

def Alloc.setData (m : Alloc) (bh : Nat) (x : Nat → BitVec 32) : Alloc :=
  { m with
    data := Function.update m.data bh x
    dirt := Function.update m.dirt bh true }

def Alloc.setInode (m : Alloc) (p : Nat) (x : Inode) : Alloc :=
  { m with inode := Function.update m.inode p x }

def Alloc.addCount (m : Alloc) (bh : Nat) : Alloc :=
  { m with
    count  := Function.update m.count bh (m.count bh + 1)
    cached := Function.update m.cached bh true }

/-! ## The code -/

/-- `find_first_zero`. -/
def findFirstZero (x : Nat → BitVec 32) : Nat := firstZero x 256 0

/-- The loop over the blocks of a map: `i`, `bh` and `j` as they are after it. -/
def searchMap (map : Nat → Option Nat) (data : Nat → Nat → BitVec 32) :
    Nat → Nat → Option Nat → Nat → Nat × Option Nat × Nat
  | 0, i, bh, j => (i, bh, j)
  | rounds + 1, i, _, j =>
    match map i with
    | none => searchMap map data rounds (i + 1) none j
    | some bh =>
      let j := findFirstZero (data bh)
      if j < blockBits then (i, some bh, j)
      else searchMap map data rounds (i + 1) (some bh) j

/-- `getblk`, `clear_block` and `brelse` of `new_block`. -/
def clearZone (z : Nat) : AM Unit := do
  modify fun m => m.addCount z
  let m ← get
  if m.count z ≠ 1 then throw .panic
  else modify fun m => { m.setData z (fun _ => 0) with
    uptodate := Function.update m.uptodate z true
    count    := Function.update m.count z (m.count z - 1) }

/-- `new_block`: the zone, or 0. -/
def newBlock (f : Format) : AM Nat := do
  let m ← get
  let (i, bh, j) := searchMap f.zmap m.data mapSlots 0 none blockBits
  match bh with
  | none => return 0
  | some bh =>
    if mapSlots ≤ i ∨ blockBits ≤ j then return 0
    else if bit (m.data bh) j then throw .panic
    else do
      set (m.setData bh (setBit (m.data bh) j))
      let z := j + (i * blockBits + f.firstdatazone - 1)
      if f.nzones ≤ z then return 0
      else do
        clearZone z
        return z

/-- `clear_bit` of `free_block`, and what follows. -/
def clearZoneBit (f : Format) (block : Nat) : AM Unit := do
  let k := block - (f.firstdatazone - 1)
  match f.zmap (k / blockBits) with
  | none => throw .null
  | some bh => do
    let m ← get
    if bit (m.data bh) (k % blockBits) = false then throw .panic
    else set (m.setData bh (clearBit (m.data bh) (k % blockBits)))

/-- `free_block`. -/
def freeBlock (f : Format) (block : Nat) : AM Unit := do
  if block < f.firstdatazone ∨ f.nzones ≤ block then throw .panic
  else do
    let m ← get
    if m.cached block then do
      modify fun m => m.addCount block
      let m ← get
      if m.count block ≠ 1 then return ()
      else do
        modify fun m => { m with
          dirt     := Function.update m.dirt block false
          uptodate := Function.update m.uptodate block false
          count    := Function.update m.count block (m.count block - 1) }
        clearZoneBit f block
    else clearZoneBit f block

/-- `new_inode` by a task with these ids; `p` is what `get_empty_inode` finds. -/
def newInode (f : Format) (p euid egid now : Nat) : AM (Option Nat) := do
  modify fun m => m.setInode p { noInode with count := 1 }
  let m ← get
  let (i, bh, j) := searchMap f.imap m.data mapSlots 0 none blockBits
  -- `iput` of an inode without a device
  let giveUp : AM (Option Nat) := do
    modify fun m => m.setInode p { m.inode p with count := (m.inode p).count - 1 }
    return none
  match bh with
  | none => giveUp
  | some bh =>
    if blockBits ≤ j ∨ f.ninodes < j + i * blockBits then giveUp
    else if bit (m.data bh) j then throw .panic
    else do
      set (m.setData bh (setBit (m.data bh) j))
      modify fun m => m.setInode p { m.inode p with
        count := 1, nlinks := 1, dev := f.dev, uid := euid, gid := egid, dirt := true,
        num := j + i * blockBits, mtime := now, atime := now, ctime := now }
      return some p

/-- `free_inode`. That the bit was clear is only printed. -/
def freeInode (f : Format) (p : Nat) : AM Unit := do
  let m ← get
  let inode := m.inode p
  if inode.dev = 0 then set (m.setInode p noInode)
  else if 1 < inode.count then throw .panic
  else if inode.nlinks ≠ 0 then throw .panic
  else if inode.dev ≠ f.dev then throw .panic
  else if inode.num < 1 ∨ f.ninodes < inode.num then throw .panic
  else
    match f.imap (inode.num >>> 13) with
    | none => throw .panic
    | some bh =>
      set ((m.setData bh (clearBit (m.data bh) (inode.num &&& 8191))).setInode p noInode)

/-! ## Bits of a map -/

/-- Bit `k` of the map that starts at a block. -/
def mapBit (data : Nat → Nat → BitVec 32) (start k : Nat) : Bool :=
  bit (data (start + k / blockBits)) (k % blockBits)

variable {f : Format} {m m' : Alloc} {data : Nat → Nat → BitVec 32} {start blocks i j k z : Nat}

theorem mapBit_at (hj : j < blockBits) (data : Nat → Nat → BitVec 32) (start i : Nat) :
    mapBit data start (blockBits * i + j) = bit (data (start + i)) j := by
  unfold mapBit
  rw [Nat.mul_add_div (by decide), Nat.div_eq_of_lt hj, Nat.add_zero, Nat.mul_add_mod,
    Nat.mod_eq_of_lt hj]

theorem split_at (hk : k / blockBits = i) :
    k % blockBits = j ↔ k = blockBits * i + j := by
  have := Nat.div_add_mod k blockBits
  rw [hk] at this
  omega

/-- One bit of the map is set. -/
theorem mapBit_setBit (hj : j < blockBits) (data : Nat → Nat → BitVec 32) (start i k : Nat) :
    mapBit (Function.update data (start + i) (setBit (data (start + i)) j)) start k =
      if k = blockBits * i + j then true else mapBit data start k := by
  unfold mapBit
  by_cases hblock : k / blockBits = i
  · rw [hblock, Function.update_self, bit_setBit (by decide)]
    simp only [split_at hblock]
  · have hne : k ≠ blockBits * i + j := by
      intro h
      rw [h, Nat.mul_add_div (by decide), Nat.div_eq_of_lt hj, Nat.add_zero] at hblock
      exact hblock rfl
    rw [Function.update_of_ne (by omega), if_neg hne]

/-- One bit of the map is cleared. -/
theorem mapBit_clearBit (hj : j < blockBits) (data : Nat → Nat → BitVec 32) (start i k : Nat) :
    mapBit (Function.update data (start + i) (clearBit (data (start + i)) j)) start k =
      if k = blockBits * i + j then false else mapBit data start k := by
  unfold mapBit
  by_cases hblock : k / blockBits = i
  · rw [hblock, Function.update_self, bit_clearBit (by decide)]
    simp only [split_at hblock]
  · have hne : k ≠ blockBits * i + j := by
      intro h
      rw [h, Nat.mul_add_div (by decide), Nat.div_eq_of_lt hj, Nat.add_zero] at hblock
      exact hblock rfl
    rw [Function.update_of_ne (by omega), if_neg hne]

/-- Another block is written. -/
theorem mapBit_other {bh : Nat} (x : Nat → BitVec 32) (h : bh ≠ start + k / blockBits) :
    mapBit (Function.update data bh x) start k = mapBit data start k := by
  unfold mapBit
  rw [Function.update_of_ne (Ne.symm h)]

/-- `find_first_zero` of a block of the map. -/
theorem findFirstZero_spec (data : Nat → Nat → BitVec 32) (start i : Nat) :
    findFirstZero (data (start + i)) ≤ blockBits ∧
      (∀ k, blockBits * i ≤ k → k < blockBits * i + findFirstZero (data (start + i)) →
        mapBit data start k = true) ∧
      (findFirstZero (data (start + i)) < blockBits →
        mapBit data start (blockBits * i + findFirstZero (data (start + i))) = false) := by
  obtain ⟨-, hle, hset, hclear⟩ := firstZero_spec (by decide : 0 < 32) (data (start + i)) 256 0
  rw [show findFirstZero (data (start + i)) = firstZero (data (start + i)) 256 0 from rfl]
  generalize firstZero (data (start + i)) 256 0 = r at *
  have hle : r ≤ blockBits := hle
  refine ⟨hle, fun k hk hk' => ?_, fun hlt => ?_⟩
  · have hb : k - blockBits * i < blockBits := by omega
    rw [show k = blockBits * i + (k - blockBits * i) by omega, mapBit_at hb]
    exact hset _ (Nat.zero_le _) (by omega)
  · rw [mapBit_at hlt]
    exact hclear hlt

/-- **The loop over a map**: it stops at the first clear bit of the map, or has
gone through the whole array, and no bit of the map is clear. -/
theorem searchMap_spec {rounds : Nat} {bh : Option Nat} (hblocks : blocks ≤ mapSlots)
    (hi : i + rounds = mapSlots) (hj : bh = none ∨ j = blockBits)
    (hset : ∀ k, k < blockBits * min i blocks → mapBit data start k = true) :
    (∃ i' j', searchMap (mapAt start blocks) data rounds i bh j = (i', some (start + i'), j') ∧
      i' < blocks ∧ j' < blockBits ∧ mapBit data start (blockBits * i' + j') = false ∧
      ∀ k, k < blockBits * i' + j' → mapBit data start k = true) ∨
    (∃ bh' j', searchMap (mapAt start blocks) data rounds i bh j = (mapSlots, bh', j') ∧
      (bh' = none ∨ j' = blockBits) ∧
      ∀ k, k < blockBits * blocks → mapBit data start k = true) := by
  induction rounds generalizing i bh j with
  | zero =>
    refine Or.inr ⟨bh, j, ?_, hj, ?_⟩
    · rw [searchMap, show i = mapSlots by omega]
    · rw [Nat.min_eq_right (by omega)] at hset
      exact hset
  | succ rounds ih =>
    unfold searchMap mapAt
    by_cases hin : i < blocks
    · rw [if_pos hin]
      dsimp only
      obtain ⟨hle, hbits, hclear⟩ := findFirstZero_spec data start i
      rw [Nat.min_eq_left (Nat.le_of_lt hin)] at hset
      have hbefore : ∀ k, k < blockBits * i + findFirstZero (data (start + i)) →
          mapBit data start k = true := by
        intro k hk
        by_cases hlt : k < blockBits * i
        · exact hset k hlt
        · exact hbits k (Nat.le_of_not_lt hlt) hk
      by_cases hlt : findFirstZero (data (start + i)) < blockBits
      · rw [if_pos hlt]
        exact Or.inl ⟨i, _, rfl, hin, hlt, hclear hlt, hbefore⟩
      · have hfull : findFirstZero (data (start + i)) = blockBits := by omega
        rw [if_neg hlt]
        refine ih (by omega) (Or.inr hfull) ?_
        rw [Nat.min_eq_left hin, Nat.mul_succ]
        rw [hfull] at hbefore
        exact hbefore
    · rw [if_neg hin]
      refine ih (by omega) (Or.inl rfl) ?_
      rw [Nat.min_eq_right (by omega)] at hset ⊢
      exact hset

/-- The loop from its start. -/
theorem searchMap_all (data : Nat → Nat → BitVec 32) (start : Nat) (hblocks : blocks ≤ mapSlots) :
    (∃ i j, searchMap (mapAt start blocks) data mapSlots 0 none blockBits =
        (i, some (start + i), j) ∧ i < blocks ∧ j < blockBits ∧ mapBit data start (blockBits * i + j) = false ∧
      ∀ k, k < blockBits * i + j → mapBit data start k = true) ∨
    (∃ bh j, searchMap (mapAt start blocks) data mapSlots 0 none blockBits = (mapSlots, bh, j) ∧
      (bh = none ∨ j = blockBits) ∧
      ∀ k, k < blockBits * blocks → mapBit data start k = true) := by
  refine searchMap_spec hblocks (Nat.zero_add _) (Or.inl rfl) fun k hk => ?_
  rw [Nat.zero_min, Nat.mul_zero] at hk
  exact absurd hk (Nat.not_lt_zero k)

/-! ## Sets -/

def Alloc.zoneBit (m : Alloc) (f : Format) (k : Nat) : Bool := mapBit m.data f.zmapStart k

def Alloc.inodeBit (m : Alloc) (f : Format) (k : Nat) : Bool := mapBit m.data f.imapStart k

/-- The bit of a zone. -/
def Format.index (f : Format) (z : Nat) : Nat := z - (f.firstdatazone - 1)

def Format.zones (f : Format) : Finset Nat := Finset.Ico f.firstdatazone f.nzones

def Format.inodes (f : Format) : Finset Nat := Finset.Icc 1 f.ninodes

/-- The zones whose bits are set, and the inodes. -/
def Alloc.usedZones (m : Alloc) (f : Format) : Finset Nat :=
  f.zones.filter fun z => m.zoneBit f (f.index z)

def Alloc.usedInodes (m : Alloc) (f : Format) : Finset Nat :=
  f.inodes.filter fun n => m.inodeBit f n

theorem mem_zones : z ∈ f.zones ↔ f.firstdatazone ≤ z ∧ z < f.nzones := Finset.mem_Ico

theorem mem_usedZones : z ∈ m.usedZones f ↔ z ∈ f.zones ∧ m.zoneBit f (f.index z) = true :=
  Finset.mem_filter

theorem mem_usedInodes {n : Nat} :
    n ∈ m.usedInodes f ↔ n ∈ f.inodes ∧ m.inodeBit f n = true := Finset.mem_filter

theorem index_lt (hz : z ∈ f.zones) : f.index z < blockBits * f.zmapBlocks := by
  obtain ⟨hlo, hhi⟩ := mem_zones.mp hz
  have := f.zmap_covers
  unfold Format.index
  omega

theorem index_inj {y : Nat} (hz : z ∈ f.zones) (hy : y ∈ f.zones) (h : f.index y = f.index z) :
    y = z := by
  have hbehind := f.behind
  have hz' := (mem_zones.mp hz).1
  have hy' := (mem_zones.mp hy).1
  unfold Format.index at h
  omega

theorem inode_lt {n : Nat} (hn : n ∈ f.inodes) : n < blockBits * f.imapBlocks :=
  Nat.lt_of_le_of_lt (Finset.mem_Icc.mp hn).2 f.imap_covers

theorem zmap_pos (f : Format) : 0 < blockBits * f.zmapBlocks :=
  Nat.mul_pos (by decide) f.zmap_le.1

theorem imap_pos (f : Format) : 0 < blockBits * f.imapBlocks :=
  Nat.mul_pos (by decide) f.imap_le.1

/-- The map of the zones is behind that of the inodes, and both before the data. -/
theorem zmap_block (hk : k < blockBits * f.zmapBlocks) :
    f.imapStart + f.imapBlocks ≤ f.zmapStart + k / blockBits ∧
      f.zmapStart + k / blockBits < f.firstdatazone := by
  have hlt : k / blockBits < f.zmapBlocks := Nat.div_lt_of_lt_mul hk
  have hbehind := f.behind
  unfold Format.imapStart Format.zmapStart
  generalize k / blockBits = i at hlt
  omega

theorem imap_block (hk : k < blockBits * f.imapBlocks) :
    f.imapStart + k / blockBits < f.zmapStart := by
  have hlt : k / blockBits < f.imapBlocks := Nat.div_lt_of_lt_mul hk
  unfold Format.imapStart Format.zmapStart
  omega

/-- What stays as it is: the maps but for some bits of zones, and the inodes. -/
structure ZonesChanged (f : Format) (m m' : Alloc) (bits : Nat → Bool) : Prop where
  zones  : ∀ k, k < blockBits * f.zmapBlocks → m'.zoneBit f k = bits k
  inodes : ∀ k, k < blockBits * f.imapBlocks → m'.inodeBit f k = m.inodeBit f k
  inode  : m'.inode = m.inode

/-- One block of the map of the zones is written. -/
theorem zones_set {bh : Nat} (hbh : bh = f.zmapStart + i)
    (x : Nat → BitVec 32) {bits : Nat → Bool}
    (hbits : ∀ k, mapBit (Function.update m.data bh x) f.zmapStart k = bits k) :
    ZonesChanged f m (m.setData bh x) bits := by
  refine ⟨fun k _ => hbits k, fun k hk => mapBit_other x ?_, rfl⟩
  have := imap_block hk
  omega

/-- A block of data is written. -/
theorem ZonesChanged.setData {bits : Nat → Bool} (h : ZonesChanged f m m' bits)
    (hz : f.firstdatazone ≤ z) (x : Nat → BitVec 32) : ZonesChanged f m (m'.setData z x) bits := by
  refine ⟨fun k hk => ?_, fun k hk => ?_, h.inode⟩
  · have := (zmap_block hk).2
    rw [← h.zones k hk]
    exact mapBit_other x (by omega)
  · have h1 := imap_block hk
    have h2 := f.behind
    rw [← h.inodes k hk]
    refine mapBit_other x ?_
    unfold Format.zmapStart at h1
    omega

/-- A zone is given out: its bit is set, and its buffer cleared. -/
structure NewZone (f : Format) (m : Alloc) (z : Nat) (m' : Alloc) : Prop where
  zone    : z ∈ f.zones
  unused  : m.zoneBit f (f.index z) = false
  changed : ZonesChanged f m m' fun k => if k = f.index z then true else m.zoneBit f k
  zeros   : m'.data z = fun _ => 0
  up      : m'.uptodate z = true
  dirty   : m'.dirt z = true
  count   : m'.count = m.count
  cached  : ∀ y, m.cached y = true → m'.cached y = true

/-- No zone is left. A bit that belongs to no zone may be set now. -/
structure NoZone (f : Format) (m m' : Alloc) : Prop where
  full   : ∀ z, z ∈ f.zones → m.zoneBit f (f.index z) = true
  zones  : ∀ z, z ∈ f.zones → m'.zoneBit f (f.index z) = true
  zero   : m'.zoneBit f 0 = true
  inodes : ∀ k, k < blockBits * f.imapBlocks → m'.inodeBit f k = m.inodeBit f k
  inode  : m'.inode = m.inode
  count  : m'.count = m.count
  cached : m'.cached = m.cached

/-- **`new_block`**. It fails exactly if no zone is left. -/
theorem newBlock_spec (hzero : m.zoneBit f 0 = true)
    (hidle : ∀ z, z ∈ f.zones → m.zoneBit f (f.index z) = false → m.count z = 0) :
    wp (newBlock f) (fun z m' => (z = 0 ∧ NoZone f m m') ∨ (z ≠ 0 ∧ NewZone f m z m'))
      (fun _ _ => False) m := by
  have hbehind := f.behind
  unfold newBlock
  rw [wp_bind, wp_get]
  have hsearch := searchMap_all m.data f.zmapStart f.zmap_le.2
  obtain ⟨i, j, hres, hi, hj, hclear, hset⟩ | ⟨bh, j, hres, -, hset⟩ := hsearch
  -- a clear bit: it is set, and the block behind it zeroed
  · have hres : searchMap f.zmap m.data mapSlots 0 none blockBits =
        (i, some (f.zmapStart + i), j) := hres
    have hslots := f.zmap_le.2
    have hj₀ : blockBits * i + j ≠ 0 := by
      intro h0
      rw [h0] at hclear
      exact absurd (hzero.symm.trans hclear) (by simp)
    have hbit : ¬ bit (m.data (f.zmapStart + i)) j = true := by
      rw [mapBit_at hj] at hclear
      simp [hclear]
    rw [hres]
    dsimp only
    rw [if_neg (by omega), if_neg hbit, wp_bind, wp_set]
    have hwrite := zones_set (m := m) rfl (setBit (m.data (f.zmapStart + i)) j)
      (mapBit_setBit hj m.data f.zmapStart i)
    have hzone : j + (i * blockBits + f.firstdatazone - 1) =
        blockBits * i + j + (f.firstdatazone - 1) := by
      rw [Nat.mul_comm i]
      omega
    obtain ⟨z, hz⟩ : ∃ z, z = blockBits * i + j + (f.firstdatazone - 1) := ⟨_, rfl⟩
    have hindex : f.index z = blockBits * i + j := by
      rw [hz]
      exact Nat.add_sub_cancel ..
    rw [hzone, ← hz]
    rw [← hindex] at hclear hset hj₀ hwrite
    by_cases hlast : f.nzones ≤ z
    · rw [if_pos hlast]
      have hbelow : ∀ y, y ∈ f.zones → f.index y < f.index z := by
        intro y hy
        obtain ⟨hlo, hhi⟩ := mem_zones.mp hy
        unfold Format.index
        omega
      have hfull : ∀ y, y ∈ f.zones → m.zoneBit f (f.index y) = true := fun y hy =>
        hset _ (hbelow y hy)
      refine Or.inl ⟨rfl, hfull, fun y hy => ?_, ?_, hwrite.inodes, rfl, rfl, rfl⟩
      · rw [hwrite.zones _ (index_lt hy), if_neg (Nat.ne_of_lt (hbelow y hy))]
        exact hfull y hy
      · rw [hwrite.zones 0 (zmap_pos f), if_neg (Ne.symm hj₀)]
        exact hzero
    · rw [if_neg hlast]
      have hzone : z ∈ f.zones := mem_zones.mpr ⟨by omega, by omega⟩
      have hcount := hidle z hzone hclear
      have hdata := hwrite.setData (mem_zones.mp hzone).1 fun _ => 0
      unfold clearZone
      have hone : ((m.setData (f.zmapStart + i)
          (setBit (m.data (f.zmapStart + i)) j)).addCount z).count z = 1 := by
        simp [Alloc.addCount, Alloc.setData, hcount]
      simp only [wp_bind, wp_modify, wp_get, hone, wp_pure, ne_eq, not_true_eq_false, if_false]
      refine Or.inr ⟨by omega, hzone, hclear, ⟨hdata.zones, hdata.inodes, rfl⟩, ?_, ?_, ?_, ?_, ?_⟩
      · simp [Alloc.setData, Alloc.addCount]
      · simp [Alloc.setData, Alloc.addCount]
      · simp [Alloc.setData, Alloc.addCount]
      · simpa [Alloc.setData, Alloc.addCount] using hcount.symm
      · intro y hy
        simp only [Alloc.setData, Alloc.addCount]
        by_cases hyz : y = z
        · simp [hyz]
        · rw [Function.update_of_ne hyz]
          exact hy
  · have hres : searchMap f.zmap m.data mapSlots 0 none blockBits = (mapSlots, bh, j) := hres
    have hfull : ∀ z, z ∈ f.zones → m.zoneBit f (f.index z) = true := fun z hz =>
      hset _ (index_lt hz)
    rw [hres]
    have hnone : NoZone f m m := ⟨hfull, hfull, hzero, fun _ _ => rfl, rfl, rfl, rfl⟩
    cases bh with
    | none => exact Or.inl ⟨rfl, hnone⟩
    | some bh =>
      dsimp only
      rw [if_pos (Or.inl (Nat.le_refl _))]
      exact Or.inl ⟨rfl, hnone⟩

/-- A zone is freed, unless somebody has its buffer; then the bit stays, and the
buffer has one more user. -/
structure ZoneFreed (f : Format) (m : Alloc) (z : Nat) (m' : Alloc) : Prop where
  freed  : m.count z = 0 →
    ZonesChanged f m m' fun k => if k = f.index z then false else m.zoneBit f k
  kept   : m.count z ≠ 0 → ZonesChanged f m m' fun k => m.zoneBit f k
  count  : ∀ y, m'.count y = if y = z ∧ m.count z ≠ 0 then m.count y + 1 else m.count y
  cached : ∀ y, m.cached y = true → m'.cached y = true

/-- The bit of the zone is found where `new_block` has set it. -/
theorem clearZoneBit_spec (hz : z ∈ f.zones) (hbit : m.zoneBit f (f.index z) = true) :
    wp (clearZoneBit f z) (fun _ m' =>
      ZonesChanged f m m' (fun k => if k = f.index z then false else m.zoneBit f k) ∧
        m'.count = m.count ∧ m'.cached = m.cached) (fun _ _ => False) m := by
  have hlt : f.index z / blockBits < f.zmapBlocks := Nat.div_lt_of_lt_mul (index_lt hz)
  have hmap : f.zmap (f.index z / blockBits) = some (f.zmapStart + f.index z / blockBits) :=
    if_pos hlt
  have hmod : f.index z % blockBits < blockBits := Nat.mod_lt _ (by decide)
  have hset : ¬ bit (m.data (f.zmapStart + f.index z / blockBits)) (f.index z % blockBits) =
      false := by
    rw [Bool.not_eq_false]
    exact hbit
  unfold clearZoneBit
  rw [show z - (f.firstdatazone - 1) = f.index z from rfl]
  dsimp only
  rw [hmap]
  simp only [wp_bind, wp_get, if_neg hset, wp_set]
  refine ⟨zones_set rfl _ fun k => ?_, rfl, rfl⟩
  rw [mapBit_clearBit hmod, Nat.div_add_mod]
  rfl

/-- **`free_block`** of a zone that is used. -/
theorem freeBlock_spec (hz : z ∈ f.zones) (hbit : m.zoneBit f (f.index z) = true)
    (hcached : m.cached z = false → m.count z = 0) :
    wp (freeBlock f z) (fun _ m' => ZoneFreed f m z m') (fun _ _ => False) m := by
  obtain ⟨hlo, hhi⟩ := mem_zones.mp hz
  unfold freeBlock
  rw [if_neg (by omega), wp_bind, wp_get]
  by_cases hc : m.cached z = true
  · rw [if_pos hc]
    simp only [wp_bind, wp_modify, wp_get]
    by_cases hcount : m.count z = 0
    · have hone : ¬ (m.addCount z).count z ≠ 1 := by simp [Alloc.addCount, hcount]
      rw [if_neg hone]
      simp only [wp_bind, wp_modify]
      refine wp_mono (clearZoneBit_spec (f := f) hz hbit) ?_ fun _ _ he => he
      rintro _ m' ⟨hchanged, hcount', hcached'⟩
      refine ⟨fun _ => ⟨hchanged.zones, hchanged.inodes, hchanged.inode⟩,
        fun hne => absurd hcount hne, fun y => ?_, fun y hy => ?_⟩
      · rw [hcount', if_neg fun hand => hand.2 hcount]
        simp [Alloc.addCount]
      · rw [hcached']
        by_cases hyz : y = z
        · simp [Alloc.addCount, hyz]
        · simp [Alloc.addCount, Function.update_of_ne hyz, hy]
    · have hone : (m.addCount z).count z ≠ 1 := by simpa [Alloc.addCount] using hcount
      rw [if_pos hone]
      refine ⟨fun h => absurd h hcount, fun _ => ⟨fun _ _ => rfl, fun _ _ => rfl, rfl⟩, fun y => ?_,
        fun y hy => ?_⟩
      · by_cases hyz : y = z
        · simp [Alloc.addCount, hyz, hcount]
        · simp [Alloc.addCount, hyz]
      · by_cases hyz : y = z
        · simp [Alloc.addCount, hyz]
        · simp [Alloc.addCount, Function.update_of_ne hyz, hy]
  · have hcount : m.count z = 0 := hcached (by simpa using hc)
    rw [if_neg hc]
    refine wp_mono (clearZoneBit_spec hz hbit) ?_ fun _ _ he => he
    rintro _ m' ⟨hchanged, hcount', hcached'⟩
    refine ⟨fun _ => hchanged, fun hne => absurd hcount hne, fun y => ?_, fun y hy => ?_⟩
    · rw [hcount', if_neg fun hand => hand.2 hcount]
    · rw [hcached', hy]

/-- What stays as it is: the maps but for some bits of inodes, the inodes but for
one slot, and the counts. -/
structure InodesChanged (f : Format) (m : Alloc) (p : Nat) (m' : Alloc) (bits : Nat → Bool) :
    Prop where
  inodes : ∀ k, k < blockBits * f.imapBlocks → m'.inodeBit f k = bits k
  zones  : ∀ k, k < blockBits * f.zmapBlocks → m'.zoneBit f k = m.zoneBit f k
  others : ∀ q, q ≠ p → m'.inode q = m.inode q
  count  : m'.count = m.count
  cached : m'.cached = m.cached

/-- One block of the map of the inodes is written, and a slot. -/
theorem inodes_set {p bh : Nat} (hbh : bh = f.imapStart + i) (hi : i < f.imapBlocks)
    (x : Nat → BitVec 32) (y : Inode) {bits : Nat → Bool}
    (hbits : ∀ k, mapBit (Function.update m.data bh x) f.imapStart k = bits k) :
    InodesChanged f m p ((m.setData bh x).setInode p y) bits := by
  refine ⟨fun k _ => hbits k, fun k hk => mapBit_other x ?_, fun q hq => ?_, rfl, rfl⟩
  · have := (zmap_block hk).1
    omega
  · exact Function.update_of_ne hq ..

/-- An inode is given out: its bit is set. -/
structure NewInode (f : Format) (m : Alloc) (p : Nat) (m' : Alloc) : Prop where
  inode   : (m'.inode p).num ∈ f.inodes
  unused  : m.inodeBit f (m'.inode p).num = false
  changed : InodesChanged f m p m' fun k => if k = (m'.inode p).num then true else m.inodeBit f k
  dev     : (m'.inode p).dev = f.dev
  once    : (m'.inode p).count = 1 ∧ (m'.inode p).nlinks = 1

/-- No inode is left. -/
structure NoInode (f : Format) (m : Alloc) (p : Nat) (m' : Alloc) : Prop where
  full    : ∀ n, n ∈ f.inodes → m.inodeBit f n = true
  changed : InodesChanged f m p m' fun k => m.inodeBit f k
  unused  : (m'.inode p).count = 0

/-- **`new_inode`**. It fails exactly if no inode is left. -/
theorem newInode_spec (hzero : m.inodeBit f 0 = true) (p euid egid now : Nat) :
    wp (newInode f p euid egid now)
      (fun r m' => (r = none ∧ NoInode f m p m') ∨ (r = some p ∧ NewInode f m p m'))
      (fun _ _ => False) m := by
  unfold newInode
  simp only [wp_bind, wp_modify, wp_get]
  have hdata : (m.setInode p { noInode with count := 1 }).data = m.data := rfl
  have hsearch := searchMap_all m.data f.imapStart f.imap_le.2
  have hgive : (∀ n, n ∈ f.inodes → m.inodeBit f n = true) →
      wp (do
          modify fun m => m.setInode p { m.inode p with count := (m.inode p).count - 1 }
          return none)
        (fun r m' => (r = none ∧ NoInode f m p m') ∨ (r = some p ∧ NewInode f m p m'))
        (fun (_ : Fault) _ => False) (m.setInode p { noInode with count := 1 }) := by
    intro hfull
    refine Or.inl ⟨rfl, hfull, ⟨fun _ _ => rfl, fun _ _ => rfl, fun q hq => ?_, rfl, rfl⟩, ?_⟩
    · simp [Alloc.setInode, Function.update_of_ne hq]
    · simp [Alloc.setInode]
  rw [hdata]
  obtain ⟨i, j, hres, hi, hj, hclear, hset⟩ | ⟨bh, j, hres, hend, hset⟩ := hsearch
  · have hres : searchMap f.imap m.data mapSlots 0 none blockBits =
        (i, some (f.imapStart + i), j) := hres
    have hj₀ : blockBits * i + j ≠ 0 := by
      intro h0
      rw [h0] at hclear
      exact absurd (hzero.symm.trans hclear) (by simp)
    rw [hres]
    dsimp only
    rw [Nat.mul_comm i, Nat.add_comm j]
    by_cases hlast : f.ninodes < blockBits * i + j
    · rw [if_pos (Or.inr hlast)]
      refine hgive fun n hn => hset n ?_
      have := (Finset.mem_Icc.mp hn).2
      omega
    · have hbit : ¬ bit (m.data (f.imapStart + i)) j = true := by
        rw [mapBit_at hj] at hclear
        simp [hclear]
      rw [if_neg (by omega), if_neg hbit]
      simp only [wp_bind, wp_set, wp_modify, wp_pure]
      refine Or.inr ⟨trivial, ?_⟩
      have hnum : ∀ x : Inode, (((m.setInode p { noInode with count := 1 }).setData
          (f.imapStart + i) (setBit (m.data (f.imapStart + i)) j)).setInode p x).inode p = x := by
        simp [Alloc.setInode]
      have hwrite := fun x : Inode => inodes_set (f := f) (m := m) (p := p) rfl hi
        (setBit (m.data (f.imapStart + i)) j) x (mapBit_setBit hj m.data f.imapStart i)
      refine ⟨?_, ?_, ?_, ?_, ?_⟩
      all_goals rw [hnum]
      · exact Finset.mem_Icc.mpr ⟨by dsimp only; omega, by dsimp only; omega⟩
      · exact hclear
      · obtain ⟨h1, h2, h3, h4, h5⟩ := hwrite noInode
        refine ⟨h1, h2, fun q hq => ?_, h4, h5⟩
        simp [Alloc.setInode, Alloc.setData, Function.update_of_ne hq]
      · simp
  · have hres : searchMap f.imap m.data mapSlots 0 none blockBits = (mapSlots, bh, j) := hres
    have hfull : ∀ n, n ∈ f.inodes → m.inodeBit f n = true := fun n hn => hset n (inode_lt hn)
    rw [hres]
    cases bh with
    | none => exact hgive hfull
    | some bh =>
      have hj : j = blockBits := hend.resolve_left (by simp)
      dsimp only
      rw [if_pos (Or.inl (Nat.le_of_eq hj.symm))]
      exact hgive hfull

/-- **`free_inode`** of an inode that is used, without links. -/
theorem freeInode_spec {p : Nat} (hdev : (m.inode p).dev = f.dev)
    (hnum : (m.inode p).num ∈ f.inodes) (hcount : (m.inode p).count ≤ 1)
    (hlinks : (m.inode p).nlinks = 0) :
    wp (freeInode f p) (fun _ m' => InodesChanged f m p m'
      fun k => if k = (m.inode p).num then false else m.inodeBit f k) (fun _ _ => False) m := by
  obtain ⟨hlo, hhi⟩ := Finset.mem_Icc.mp hnum
  have hshift : (m.inode p).num >>> 13 = (m.inode p).num / blockBits :=
    Nat.shiftRight_eq_div_pow _ 13
  have hmask : (m.inode p).num &&& 8191 = (m.inode p).num % blockBits :=
    Nat.and_two_pow_sub_one_eq_mod _ 13
  have hlt : (m.inode p).num / blockBits < f.imapBlocks := Nat.div_lt_of_lt_mul (inode_lt hnum)
  have hmap : f.imap ((m.inode p).num / blockBits) =
      some (f.imapStart + (m.inode p).num / blockBits) := if_pos hlt
  have hmod : (m.inode p).num % blockBits < blockBits := Nat.mod_lt _ (by decide)
  unfold freeInode
  simp only [wp_bind, wp_get]
  rw [if_neg (by rw [hdev]; exact f.dev_ne), if_neg (by omega), if_neg (by simp [hlinks]),
    if_neg (by simp [hdev]), if_neg (by omega), hshift, hmask, hmap]
  dsimp only
  rw [wp_set]
  refine inodes_set rfl hlt _ _ fun k => ?_
  rw [mapBit_clearBit hmod, Nat.div_add_mod]
  rfl

/-! ## Sequences of calls -/

/-- The device, the zones that were given out and not freed yet, and the slots of
the inodes that were. -/
structure System where
  mem    : Alloc
  zones  : List Nat
  inodes : List Nat

/-- A call; or an owner writes a block of his and uses its buffer, or counts the
users and the links of an inode; or the cache gives up a buffer that nobody uses. -/
inductive Op
  | newBlock
  | freeBlock (z : Nat)
  | newInode (p euid egid now : Nat)
  | freeInode (p : Nat)
  | useBlock (z count : Nat) (x : Nat → BitVec 32)
  | useInode (p count nlinks : Nat)
  | drop (z : Nat)

/-- Ownership: what is freed or used was given out. -/
def System.Allowed (s : System) : Op → Prop
  | .newBlock => True
  | .freeBlock z => z ∈ s.zones
  | .newInode p _ _ _ => p ∉ s.inodes
  | .freeInode p => p ∈ s.inodes ∧ (s.mem.inode p).count ≤ 1 ∧ (s.mem.inode p).nlinks = 0
  | .useBlock z _ _ => z ∈ s.zones
  | .useInode p _ _ => p ∈ s.inodes
  | .drop z => s.mem.count z = 0

def Alloc.use (m : Alloc) (z count : Nat) (x : Nat → BitVec 32) : Alloc :=
  { m.setData z x with
    count  := Function.update m.count z count
    cached := Function.update m.cached z true }

def Alloc.drop (m : Alloc) (z : Nat) : Alloc :=
  { m with
    cached   := Function.update m.cached z false
    uptodate := Function.update m.uptodate z false }

/-- Nothing if the call panics. -/
def System.step (f : Format) (s : System) : Op → Option System
  | .newBlock =>
    match newBlock f s.mem with
    | .ok z m => some { s with mem := m, zones := if z = 0 then s.zones else z :: s.zones }
    | .error _ _ => none
  | .freeBlock z =>
    match freeBlock f z s.mem with
    | .ok _ m => some { s with
        mem := m, zones := if s.mem.count z = 0 then s.zones.erase z else s.zones }
    | .error _ _ => none
  | .newInode p euid egid now =>
    match newInode f p euid egid now s.mem with
    | .ok none m => some { s with mem := m }
    | .ok (some p) m => some { s with mem := m, inodes := p :: s.inodes }
    | .error _ _ => none
  | .freeInode p =>
    match freeInode f p s.mem with
    | .ok _ m => some { s with mem := m, inodes := s.inodes.erase p }
    | .error _ _ => none
  | .useBlock z count x => some { s with mem := s.mem.use z count x }
  | .useInode p count nlinks => some { s with
      mem := s.mem.setInode p { s.mem.inode p with count := count, nlinks := nlinks } }
  | .drop z => some { s with mem := s.mem.drop z }

def System.nums (s : System) : List Nat := s.inodes.map fun p => (s.mem.inode p).num

/-- What was given out is used, once. Bit 0 belongs to no zone and no inode, and
`read_super` sets it; nobody has the buffer of a free zone. -/
structure Inv (f : Format) (s : System) : Prop where
  zoneZero   : s.mem.zoneBit f 0 = true
  inodeZero  : s.mem.inodeBit f 0 = true
  zonesOnce  : s.zones.Nodup
  zonesUsed  : ∀ z, z ∈ s.zones → z ∈ s.mem.usedZones f
  inodesOnce : s.nums.Nodup
  inodesUsed : ∀ p, p ∈ s.inodes → (s.mem.inode p).dev = f.dev ∧
    (s.mem.inode p).num ∈ s.mem.usedInodes f
  idle       : ∀ z, z ∈ f.zones → s.mem.zoneBit f (f.index z) = false → s.mem.count z = 0
  cached     : ∀ z, s.mem.cached z = false → s.mem.count z = 0

variable {s s' : System} {p : Nat}

/-- Zones that are used stay so. -/
theorem usedZones_mono {l : List Nat} (h : ∀ z, z ∈ l → z ∈ m.usedZones f)
    (hbits : ∀ z, z ∈ l → m.zoneBit f (f.index z) = true → m'.zoneBit f (f.index z) = true) :
    ∀ z, z ∈ l → z ∈ m'.usedZones f := by
  intro z hz
  obtain ⟨hin, hbit⟩ := mem_usedZones.mp (h z hz)
  exact mem_usedZones.mpr ⟨hin, hbits z hz hbit⟩

/-- The inodes keep their numbers, and stay used. -/
theorem Inv.keepInodes (I : Inv f s) (hinode : m'.inode = s.mem.inode)
    (hbits : ∀ k, k < blockBits * f.imapBlocks → m'.inodeBit f k = s.mem.inodeBit f k) :
    m'.inodeBit f 0 = true ∧ (s.inodes.map fun p => (m'.inode p).num).Nodup ∧
      ∀ p, p ∈ s.inodes → (m'.inode p).dev = f.dev ∧ (m'.inode p).num ∈ m'.usedInodes f := by
  rw [hinode]
  refine ⟨(hbits 0 (imap_pos f)).trans I.inodeZero, I.inodesOnce, fun p hp => ?_⟩
  obtain ⟨hdev, hnum⟩ := I.inodesUsed p hp
  obtain ⟨hin, hbit⟩ := mem_usedInodes.mp hnum
  exact ⟨hdev, mem_usedInodes.mpr ⟨hin, (hbits _ (inode_lt hin)).trans hbit⟩⟩

/-- The zones stay as they are. -/
theorem Inv.keepZones (I : Inv f s)
    (hbits : ∀ k, k < blockBits * f.zmapBlocks → m'.zoneBit f k = s.mem.zoneBit f k)
    (hcount : m'.count = s.mem.count) :
    m'.zoneBit f 0 = true ∧ (∀ z, z ∈ s.zones → z ∈ m'.usedZones f) ∧
      ∀ z, z ∈ f.zones → m'.zoneBit f (f.index z) = false → m'.count z = 0 := by
  refine ⟨(hbits 0 (zmap_pos f)).trans I.zoneZero, ?_, fun z hz hbit => ?_⟩
  · refine usedZones_mono I.zonesUsed fun z hz hbit => ?_
    rw [hbits _ (index_lt (mem_usedZones.mp (I.zonesUsed z hz)).1)]
    exact hbit
  · rw [hcount]
    rw [hbits _ (index_lt hz)] at hbit
    exact I.idle z hz hbit

/-- A new zone is nobody's. -/
theorem Inv.fresh_zone (I : Inv f s) (hbit : s.mem.zoneBit f (f.index z) = false) :
    z ∉ s.zones := by
  intro hmem
  have hused := (mem_usedZones.mp (I.zonesUsed z hmem)).2
  rw [hbit] at hused
  cases hused

theorem Inv.fresh_inode {n : Nat} (I : Inv f s) (hbit : s.mem.inodeBit f n = false) :
    n ∉ s.nums := by
  intro hmem
  obtain ⟨p, hp, hnum⟩ := List.mem_map.mp hmem
  have hused := (mem_usedInodes.mp (I.inodesUsed p hp).2).2
  rw [hnum, hbit] at hused
  cases hused

theorem Inv.newBlock (I : Inv f s) (h : NewZone f s.mem z m') :
    Inv f { s with mem := m', zones := z :: s.zones } := by
  obtain ⟨hzero, hnums, hinodes⟩ := I.keepInodes h.changed.inode h.changed.inodes
  have hbit : ∀ y, y ∈ f.zones → m'.zoneBit f (f.index y) =
      if y = z then true else s.mem.zoneBit f (f.index y) := by
    intro y hy
    rw [h.changed.zones _ (index_lt hy)]
    by_cases hyz : y = z
    · rw [if_pos (by rw [hyz]), if_pos hyz]
    · rw [if_neg fun heq => hyz (index_inj h.zone hy heq), if_neg hyz]
  refine ⟨?_, hzero, List.nodup_cons.mpr ⟨I.fresh_zone h.unused, I.zonesOnce⟩, fun y hy => ?_,
    hnums, hinodes, fun y hy hclear => ?_, fun y hy => ?_⟩
  · rw [h.changed.zones 0 (zmap_pos f)]
    split_ifs
    · rfl
    · exact I.zoneZero
  · obtain rfl | hmem := List.mem_cons.mp hy
    · exact mem_usedZones.mpr ⟨h.zone, by rw [hbit y h.zone, if_pos rfl]⟩
    · refine usedZones_mono I.zonesUsed (fun x hx hset => ?_) y hmem
      rw [hbit x (mem_usedZones.mp (I.zonesUsed x hx)).1, hset, ite_self]
  · rw [h.count]
    rw [hbit y hy] at hclear
    split_ifs at hclear
    exact I.idle y hy hclear
  · rw [h.count]
    refine I.cached y ?_
    by_contra hne
    rw [h.cached y (by simpa using hne)] at hy
    cases hy

theorem Inv.noBlock (I : Inv f s) (h : NoZone f s.mem m') : Inv f { s with mem := m' } := by
  obtain ⟨hzero, hnums, hinodes⟩ := I.keepInodes h.inode h.inodes
  refine ⟨h.zero, hzero, I.zonesOnce, ?_, hnums, hinodes, fun y hy hclear => ?_, ?_⟩
  · exact usedZones_mono I.zonesUsed fun y hy _ =>
      h.zones y (mem_usedZones.mp (I.zonesUsed y hy)).1
  · rw [h.zones y hy] at hclear
    cases hclear
  · rw [h.cached, h.count]
    exact I.cached

theorem Inv.freeBlock (I : Inv f s) (hz : z ∈ s.zones) (h : ZoneFreed f s.mem z m') :
    Inv f { s with
      mem := m', zones := if s.mem.count z = 0 then s.zones.erase z else s.zones } := by
  have hin := (mem_usedZones.mp (I.zonesUsed z hz)).1
  have hcached : ∀ y, m'.cached y = false → m'.count y = 0 := by
    intro y hy
    have hbefore : s.mem.cached y = false := by
      by_contra hne
      rw [h.cached y (by simpa using hne)] at hy
      cases hy
    have hzero := I.cached y hbefore
    rw [h.count y, if_neg]
    · exact hzero
    · intro hand
      exact hand.2 (hand.1 ▸ hzero)
  by_cases hcount : s.mem.count z = 0
  · have hchanged := h.freed hcount
    obtain ⟨hzero, hnums, hinodes⟩ := I.keepInodes hchanged.inode hchanged.inodes
    have hindex : f.index z ≠ 0 := by
      have hlo := (mem_zones.mp hin).1
      have hbehind := f.behind
      unfold Format.index
      omega
    have hbit : ∀ y, y ∈ f.zones → m'.zoneBit f (f.index y) =
        if y = z then false else s.mem.zoneBit f (f.index y) := by
      intro y hy
      rw [hchanged.zones _ (index_lt hy)]
      by_cases hyz : y = z
      · rw [if_pos (by rw [hyz]), if_pos hyz]
      · rw [if_neg fun heq => hyz (index_inj hin hy heq), if_neg hyz]
    rw [if_pos hcount]
    refine ⟨?_, hzero, I.zonesOnce.erase z, fun y hy => ?_, hnums, hinodes, fun y hy hclear => ?_,
      hcached⟩
    · rw [hchanged.zones 0 (zmap_pos f), if_neg (Ne.symm hindex)]
      exact I.zoneZero
    · obtain ⟨hne, hmem⟩ := (I.zonesOnce.mem_erase_iff).mp hy
      obtain ⟨hy', hset⟩ := mem_usedZones.mp (I.zonesUsed y hmem)
      exact mem_usedZones.mpr ⟨hy', by rw [hbit y hy', if_neg hne, hset]⟩
    · rw [h.count y, if_neg fun hand => hand.2 hcount]
      rw [hbit y hy] at hclear
      split_ifs at hclear with hyz
      · rw [hyz, hcount]
      · exact I.idle y hy hclear
  · have hchanged := h.kept hcount
    obtain ⟨hzero, hnums, hinodes⟩ := I.keepInodes hchanged.inode hchanged.inodes
    rw [if_neg hcount]
    refine ⟨(hchanged.zones 0 (zmap_pos f)).trans I.zoneZero, hzero, I.zonesOnce, ?_, hnums,
      hinodes, fun y hy hclear => ?_, hcached⟩
    · refine usedZones_mono I.zonesUsed fun y hy hset => ?_
      rw [hchanged.zones _ (index_lt (mem_usedZones.mp (I.zonesUsed y hy)).1)]
      exact hset
    · rw [hchanged.zones _ (index_lt hy)] at hclear
      have hyz : y ≠ z := by
        intro heq
        subst heq
        rw [(mem_usedZones.mp (I.zonesUsed y hz)).2] at hclear
        cases hclear
      rw [h.count y, if_neg fun hand => hyz hand.1]
      exact I.idle y hy hclear

theorem Inv.newInode (I : Inv f s) (hp : p ∉ s.inodes) (h : NewInode f s.mem p m') :
    Inv f { s with mem := m', inodes := p :: s.inodes } := by
  obtain ⟨hzero, hzones, hidle⟩ := I.keepZones h.changed.zones h.changed.count
  have hother : ∀ q, q ∈ s.inodes → m'.inode q = s.mem.inode q := fun q hq =>
    h.changed.others q fun heq => hp (heq ▸ hq)
  have hnums : (s.inodes.map fun q => (m'.inode q).num) = s.nums :=
    List.map_congr_left fun q hq => by rw [hother q hq]
  refine ⟨hzero, ?_, I.zonesOnce, hzones, ?_, fun q hq => ?_, hidle, ?_⟩
  · rw [h.changed.inodes 0 (imap_pos f)]
    split_ifs
    · rfl
    · exact I.inodeZero
  · show ((p :: s.inodes).map fun q => (m'.inode q).num).Nodup
    rw [List.map_cons, hnums]
    exact List.nodup_cons.mpr ⟨I.fresh_inode h.unused, I.inodesOnce⟩
  · obtain rfl | hmem := List.mem_cons.mp hq
    · refine ⟨h.dev, mem_usedInodes.mpr ⟨h.inode, ?_⟩⟩
      rw [h.changed.inodes _ (inode_lt h.inode), if_pos rfl]
    · rw [hother q hmem]
      obtain ⟨hdev, hused⟩ := I.inodesUsed q hmem
      obtain ⟨hin, hset⟩ := mem_usedInodes.mp hused
      refine ⟨hdev, mem_usedInodes.mpr ⟨hin, ?_⟩⟩
      rw [h.changed.inodes _ (inode_lt hin), hset, ite_self]
  · rw [h.changed.cached, h.changed.count]
    exact I.cached

theorem Inv.noInode (I : Inv f s) (hp : p ∉ s.inodes) (h : NoInode f s.mem p m') :
    Inv f { s with mem := m' } := by
  obtain ⟨hzero, hzones, hidle⟩ := I.keepZones h.changed.zones h.changed.count
  have hother : ∀ q, q ∈ s.inodes → m'.inode q = s.mem.inode q := fun q hq =>
    h.changed.others q fun heq => hp (heq ▸ hq)
  have hnums : (s.inodes.map fun q => (m'.inode q).num) = s.nums :=
    List.map_congr_left fun q hq => by rw [hother q hq]
  refine ⟨hzero, (h.changed.inodes 0 (imap_pos f)).trans I.inodeZero, I.zonesOnce, hzones, ?_,
    fun q hq => ?_, hidle, ?_⟩
  · show (s.inodes.map fun q => (m'.inode q).num).Nodup
    rw [hnums]
    exact I.inodesOnce
  · show (m'.inode q).dev = f.dev ∧ (m'.inode q).num ∈ m'.usedInodes f
    rw [hother q hq]
    obtain ⟨hdev, hused⟩ := I.inodesUsed q hq
    obtain ⟨hin, hset⟩ := mem_usedInodes.mp hused
    exact ⟨hdev, mem_usedInodes.mpr ⟨hin, (h.changed.inodes _ (inode_lt hin)).trans hset⟩⟩
  · rw [h.changed.cached, h.changed.count]
    exact I.cached

theorem Inv.freeInode (I : Inv f s) (hp : p ∈ s.inodes)
    (h : InodesChanged f s.mem p m'
      fun k => if k = (s.mem.inode p).num then false else s.mem.inodeBit f k) :
    Inv f { s with mem := m', inodes := s.inodes.erase p } := by
  obtain ⟨hzero, hzones, hidle⟩ := I.keepZones h.zones h.count
  have hnodup : s.inodes.Nodup := I.inodesOnce.of_map _
  have hother : ∀ q, q ∈ s.inodes.erase p → q ∈ s.inodes ∧ q ≠ p ∧ m'.inode q = s.mem.inode q := by
    intro q hq
    obtain ⟨hne, hmem⟩ := hnodup.mem_erase_iff.mp hq
    exact ⟨hmem, hne, h.others q hne⟩
  have hpos := (Finset.mem_Icc.mp (mem_usedInodes.mp (I.inodesUsed p hp).2).1).1
  refine ⟨hzero, ?_, I.zonesOnce, hzones, ?_, fun q hq => ?_, hidle, ?_⟩
  · rw [h.inodes 0 (imap_pos f), if_neg (by omega)]
    exact I.inodeZero
  · have hnums : ((s.inodes.erase p).map fun q => (m'.inode q).num) =
        (s.inodes.erase p).map fun q => (s.mem.inode q).num :=
      List.map_congr_left fun q hq => by rw [(hother q hq).2.2]
    show ((s.inodes.erase p).map fun q => (m'.inode q).num).Nodup
    rw [hnums]
    exact I.inodesOnce.sublist ((List.erase_sublist).map _)
  · obtain ⟨hmem, hne, hsame⟩ := hother q hq
    obtain ⟨hdev, hused⟩ := I.inodesUsed q hmem
    obtain ⟨hin, hset⟩ := mem_usedInodes.mp hused
    have hnum : (s.mem.inode q).num ≠ (s.mem.inode p).num := fun heq =>
      hne (List.inj_on_of_nodup_map I.inodesOnce hmem hp heq)
    show (m'.inode q).dev = f.dev ∧ (m'.inode q).num ∈ m'.usedInodes f
    rw [hsame]
    refine ⟨hdev, mem_usedInodes.mpr ⟨hin, ?_⟩⟩
    rw [h.inodes _ (inode_lt hin), if_neg hnum, hset]
  · rw [h.cached, h.count]
    exact I.cached

theorem Inv.useBlock (I : Inv f s) (hz : z ∈ s.zones) (count : Nat) (x : Nat → BitVec 32) :
    Inv f { s with mem := s.mem.use z count x } := by
  obtain ⟨hin, hset⟩ := mem_usedZones.mp (I.zonesUsed z hz)
  have hsame : ZonesChanged f s.mem s.mem (s.mem.zoneBit f) := ⟨fun _ _ => rfl, fun _ _ => rfl, rfl⟩
  obtain ⟨hzones, hbits, hinode⟩ := hsame.setData (mem_zones.mp hin).1 x
  obtain ⟨hzero, hnums, hinodes⟩ := 
    I.keepInodes (show (s.mem.use z count x).inode = s.mem.inode from hinode) hbits
  refine ⟨(hzones 0 (zmap_pos f)).trans I.zoneZero, hzero, I.zonesOnce, ?_, hnums, hinodes,
    fun y hy hclear => ?_, fun y hy => ?_⟩
  · refine usedZones_mono I.zonesUsed fun y hy hset => ?_
    exact (hzones _ (index_lt (mem_usedZones.mp (I.zonesUsed y hy)).1)).trans hset
  · have hclear : s.mem.zoneBit f (f.index y) = false := (hzones _ (index_lt hy)).symm.trans hclear
    have hyz : y ≠ z := by
      intro heq
      rw [heq, hset] at hclear
      cases hclear
    exact (Function.update_of_ne hyz ..).trans (I.idle y hy hclear)
  · have hyz : y ≠ z := by
      intro heq
      simp [Alloc.use, heq] at hy
    have hy : s.mem.cached y = false := (Function.update_of_ne hyz ..).symm.trans hy
    exact (Function.update_of_ne hyz ..).trans (I.cached y hy)

theorem Inv.useInode (I : Inv f s) (p count nlinks : Nat) :
    Inv f { s with
      mem := s.mem.setInode p { s.mem.inode p with count := count, nlinks := nlinks } } := by
  have hnum : ∀ q, (Function.update s.mem.inode p
      { s.mem.inode p with count := count, nlinks := nlinks } q).num = (s.mem.inode q).num := by
    intro q
    by_cases hqp : q = p
    · simp [hqp]
    · simp [hqp]
  have hdev : ∀ q, (Function.update s.mem.inode p
      { s.mem.inode p with count := count, nlinks := nlinks } q).dev = (s.mem.inode q).dev := by
    intro q
    by_cases hqp : q = p
    · simp [hqp]
    · simp [hqp]
  refine ⟨I.zoneZero, I.inodeZero, I.zonesOnce, I.zonesUsed, ?_, fun q hq => ?_, I.idle, I.cached⟩
  · unfold System.nums Alloc.setInode
    simp only [hnum]
    exact I.inodesOnce
  · unfold Alloc.setInode
    simp only [hnum, hdev]
    exact I.inodesUsed q hq

theorem Inv.drop (I : Inv f s) (hcount : s.mem.count z = 0) :
    Inv f { s with mem := s.mem.drop z } := by
  refine ⟨I.zoneZero, I.inodeZero, I.zonesOnce, I.zonesUsed, I.inodesOnce, I.inodesUsed, I.idle,
    fun y hy => ?_⟩
  by_cases hyz : y = z
  · rw [hyz]
    exact hcount
  · exact I.cached y ((Function.update_of_ne hyz ..).symm.trans hy)

/-- One call keeps the invariant. -/
theorem inv_step {op : Op} (I : Inv f s) (hop : s.Allowed op) (hstep : s.step f op = some s') :
    Inv f s' := by
  cases op with
  | newBlock =>
    cases hres : BitMaps.newBlock f s.mem with
    | ok z m' =>
      simp only [System.step, hres] at hstep
      obtain rfl := Option.some.inj hstep
      obtain ⟨rfl, hnone⟩ | ⟨hz, hnew⟩ := wp_ok (newBlock_spec I.zoneZero I.idle) hres
      · exact I.noBlock hnone
      · rw [if_neg hz]
        exact I.newBlock hnew
    | error e m' => simp [System.step, hres] at hstep
  | freeBlock z =>
    obtain ⟨hin, hset⟩ := mem_usedZones.mp (I.zonesUsed z hop)
    cases hres : BitMaps.freeBlock f z s.mem with
    | ok _ m' =>
      simp only [System.step, hres] at hstep
      obtain rfl := Option.some.inj hstep
      have hfreed := wp_ok (freeBlock_spec hin hset (I.cached z)) hres
      exact I.freeBlock hop hfreed
    | error e m' => simp [System.step, hres] at hstep
  | newInode p euid egid now =>
    cases hres : BitMaps.newInode f p euid egid now s.mem with
    | ok r m' =>
      obtain ⟨rfl, hnone⟩ | ⟨rfl, hnew⟩ := wp_ok (newInode_spec I.inodeZero p euid egid now) hres
      · simp only [System.step, hres] at hstep
        obtain rfl := Option.some.inj hstep
        exact I.noInode hop hnone
      · simp only [System.step, hres] at hstep
        obtain rfl := Option.some.inj hstep
        exact I.newInode hop hnew
    | error e m' => simp [System.step, hres] at hstep
  | freeInode p =>
    obtain ⟨hp, hcount, hlinks⟩ := hop
    obtain ⟨hdev, hused⟩ := I.inodesUsed p hp
    cases hres : BitMaps.freeInode f p s.mem with
    | ok _ m' =>
      simp only [System.step, hres] at hstep
      obtain rfl := Option.some.inj hstep
      have hfreed := wp_ok (freeInode_spec hdev (mem_usedInodes.mp hused).1 hcount hlinks) hres
      exact I.freeInode hp hfreed
    | error e m' => simp [System.step, hres] at hstep
  | useBlock z count x =>
    obtain rfl := Option.some.inj hstep
    exact I.useBlock hop count x
  | useInode p count nlinks =>
    obtain rfl := Option.some.inj hstep
    exact I.useInode p count nlinks
  | drop z =>
    obtain rfl := Option.some.inj hstep
    exact I.drop hop

/-- A call that may be made. -/
def Step (f : Format) (s s' : System) : Prop := ∃ op, s.Allowed op ∧ s.step f op = some s'

/-- And so do all sequences of calls. -/
theorem inv_run (I : Inv f s) (hrun : Relation.ReflTransGen (Step f) s s') : Inv f s' := by
  induction hrun with
  | refl => exact I
  | tail _ hstep ih =>
    obtain ⟨op, hop, hstep⟩ := hstep
    exact inv_step ih hop hstep

/-- What is given out is distinct, and in its range; and what each call does here. -/
structure Right (f : Format) (s : System) : Prop where
  zones      : s.zones.Nodup ∧ ∀ z, z ∈ s.zones → f.firstdatazone ≤ z ∧ z < f.nzones
  inodes     : s.nums.Nodup ∧ ∀ n, n ∈ s.nums → 1 ≤ n ∧ n ≤ f.ninodes
  newBlock   : wp (newBlock f) (fun z m =>
    (z = 0 ↔ f.zones ⊆ s.mem.usedZones f) ∧
      (z = 0 → m.usedZones f = s.mem.usedZones f) ∧
      (z ≠ 0 → z ∉ s.zones ∧ NewZone f s.mem z m)) (fun _ _ => False) s.mem
  freeBlock  : ∀ z, z ∈ s.zones →
    wp (freeBlock f z) (fun _ m => ZoneFreed f s.mem z m) (fun _ _ => False) s.mem
  newInode   : ∀ p euid egid now, p ∉ s.inodes → wp (newInode f p euid egid now) (fun r m =>
    (r = none ↔ f.inodes ⊆ s.mem.usedInodes f) ∧
      (r = none → m.usedInodes f = s.mem.usedInodes f) ∧
      (r ≠ none → r = some p ∧ (m.inode p).num ∉ s.nums ∧ NewInode f s.mem p m))
    (fun _ _ => False) s.mem
  freeInode  : ∀ p, p ∈ s.inodes → (s.mem.inode p).count ≤ 1 → (s.mem.inode p).nlinks = 0 →
    wp (freeInode f p) (fun _ m => InodesChanged f s.mem p m
      fun k => if k = (s.mem.inode p).num then false else s.mem.inodeBit f k)
      (fun _ _ => False) s.mem

theorem newBlock_right (I : Inv f s) : wp (newBlock f) (fun z m =>
    (z = 0 ↔ f.zones ⊆ s.mem.usedZones f) ∧
      (z = 0 → m.usedZones f = s.mem.usedZones f) ∧
      (z ≠ 0 → z ∉ s.zones ∧ NewZone f s.mem z m)) (fun _ _ => False) s.mem := by
  refine wp_mono (newBlock_spec I.zoneZero I.idle) ?_ fun _ _ he => he
  intro z m h
  obtain ⟨rfl, hnone⟩ | ⟨hz, hnew⟩ := h
  · refine ⟨iff_of_true rfl fun y hy => mem_usedZones.mpr ⟨hy, hnone.full y hy⟩, fun _ => ?_,
      fun hne => absurd rfl hne⟩
    refine Finset.filter_congr fun y hy => ?_
    rw [hnone.zones y hy, hnone.full y hy]
  · refine ⟨iff_of_false hz fun hsub => ?_, fun h0 => absurd h0 hz, fun _ => ⟨?_, hnew⟩⟩
    · have hused := (mem_usedZones.mp (hsub hnew.zone)).2
      rw [hnew.unused] at hused
      cases hused
    · exact I.fresh_zone hnew.unused

theorem newInode_right (I : Inv f s) (p euid egid now : Nat) :
    wp (newInode f p euid egid now) (fun r m =>
      (r = none ↔ f.inodes ⊆ s.mem.usedInodes f) ∧
        (r = none → m.usedInodes f = s.mem.usedInodes f) ∧
        (r ≠ none → r = some p ∧ (m.inode p).num ∉ s.nums ∧ NewInode f s.mem p m))
      (fun _ _ => False) s.mem := by
  refine wp_mono (newInode_spec I.inodeZero p euid egid now) ?_ fun _ _ he => he
  intro r m h
  obtain ⟨rfl, hnone⟩ | ⟨rfl, hnew⟩ := h
  · refine ⟨iff_of_true rfl fun n hn => mem_usedInodes.mpr ⟨hn, hnone.full n hn⟩, fun _ => ?_,
      fun hne => absurd rfl hne⟩
    refine Finset.filter_congr fun n hn => ?_
    rw [hnone.changed.inodes n (inode_lt hn)]
  · refine ⟨iff_of_false (by simp) fun hsub => ?_, fun h0 => by simp at h0,
      fun _ => ⟨rfl, ?_, hnew⟩⟩
    · have hused := (mem_usedInodes.mp (hsub hnew.inode)).2
      rw [hnew.unused] at hused
      cases hused
    · exact I.fresh_inode hnew.unused

theorem Inv.right (I : Inv f s) : Right f s := by
  refine ⟨⟨I.zonesOnce, fun z hz => ?_⟩, ⟨I.inodesOnce, fun n hn => ?_⟩, newBlock_right I,
    fun z hz => ?_, fun p euid egid now _ => newInode_right I p euid egid now,
    fun p hp hcount hlinks => ?_⟩
  · exact mem_zones.mp (mem_usedZones.mp (I.zonesUsed z hz)).1
  · obtain ⟨p, hp, rfl⟩ := List.mem_map.mp hn
    exact Finset.mem_Icc.mp (mem_usedInodes.mp (I.inodesUsed p hp).2).1
  · obtain ⟨hin, hset⟩ := mem_usedZones.mp (I.zonesUsed z hz)
    exact freeBlock_spec hin hset (I.cached z)
  · obtain ⟨hdev, hused⟩ := I.inodesUsed p hp
    exact freeInode_spec hdev (mem_usedInodes.mp hused).1 hcount hlinks

/-- **The allocators are sets**, after every sequence of calls: a zone or inode that is
given out was free, so no two files are ever given the same. -/
theorem allocators_are_sets {s₀ s : System} (h : Inv f s₀)
    (hrun : Relation.ReflTransGen (Step f) s₀ s) : Right f s :=
  (inv_run h hrun).right

/-- `new_block`, `free_block`, `new_inode` and `free_inode`. -/
def Op.IsCall : Op → Prop
  | .newBlock | .freeBlock _ | .newInode _ _ _ _ | .freeInode _ => True
  | .useBlock _ _ _ | .useInode _ _ _ | .drop _ => False

/-- The calls give back the buffers they use. -/
theorem unused_step {op : Op} (I : Inv f s) (hop : s.Allowed op) (hcall : op.IsCall)
    (hstep : s.step f op = some s') (h0 : ∀ z, s.mem.count z = 0) (z : Nat) : s'.mem.count z = 0 := by
  cases op with
  | newBlock =>
    cases hres : BitMaps.newBlock f s.mem with
    | ok y m' =>
      simp only [System.step, hres] at hstep
      obtain rfl := Option.some.inj hstep
      obtain ⟨-, hnone⟩ | ⟨-, hnew⟩ := wp_ok (newBlock_spec I.zoneZero I.idle) hres
      · exact (congrFun hnone.count z).trans (h0 z)
      · exact (congrFun hnew.count z).trans (h0 z)
    | error e m' => simp [System.step, hres] at hstep
  | freeBlock y =>
    obtain ⟨hin, hset⟩ := mem_usedZones.mp (I.zonesUsed y hop)
    cases hres : BitMaps.freeBlock f y s.mem with
    | ok _ m' =>
      simp only [System.step, hres] at hstep
      obtain rfl := Option.some.inj hstep
      have hfreed := (wp_ok (freeBlock_spec hin hset (I.cached y)) hres).count z
      rw [if_neg fun hused => hused.2 (h0 y)] at hfreed
      exact hfreed.trans (h0 z)
    | error e m' => simp [System.step, hres] at hstep
  | newInode p euid egid now =>
    cases hres : BitMaps.newInode f p euid egid now s.mem with
    | ok r m' =>
      obtain ⟨rfl, hnone⟩ | ⟨rfl, hnew⟩ := wp_ok (newInode_spec I.inodeZero p euid egid now) hres
      · simp only [System.step, hres] at hstep
        obtain rfl := Option.some.inj hstep
        exact (congrFun hnone.changed.count z).trans (h0 z)
      · simp only [System.step, hres] at hstep
        obtain rfl := Option.some.inj hstep
        exact (congrFun hnew.changed.count z).trans (h0 z)
    | error e m' => simp [System.step, hres] at hstep
  | freeInode p =>
    obtain ⟨hp, hcount, hlinks⟩ := hop
    obtain ⟨hdev, hused⟩ := I.inodesUsed p hp
    cases hres : BitMaps.freeInode f p s.mem with
    | ok _ m' =>
      simp only [System.step, hres] at hstep
      obtain rfl := Option.some.inj hstep
      have hfreed := wp_ok (freeInode_spec hdev (mem_usedInodes.mp hused).1 hcount hlinks) hres
      exact (congrFun hfreed.count z).trans (h0 z)
    | error e m' => simp [System.step, hres] at hstep
  | useBlock y count x => exact hcall.elim
  | useInode p count nlinks => exact hcall.elim
  | drop y => exact hcall.elim

/-- One of the four calls. -/
def Call (f : Format) (s s' : System) : Prop := ∃ op, op.IsCall ∧ s.Allowed op ∧ s.step f op = some s'

theorem unused_run {s₀ : System} (I : Inv f s₀) (h0 : ∀ z, s₀.mem.count z = 0)
    (hrun : Relation.ReflTransGen (Call f) s₀ s) : Inv f s ∧ ∀ z, s.mem.count z = 0 := by
  induction hrun with
  | refl => exact ⟨I, h0⟩
  | tail _ hstep ih =>
    obtain ⟨op, hcall, hop, hstep⟩ := hstep
    exact ⟨inv_step ih.1 hop hstep, unused_step ih.1 hop hcall hstep ih.2⟩

/-- **Freeing clears the bit.** As long as nobody but the four calls uses a buffer of the device,
no buffer has a user between them, and `free_block` clears the bit that `new_block` has set,
and no other. -/
theorem freeing_clears {s₀ : System} (I : Inv f s₀) (h0 : ∀ z, s₀.mem.count z = 0)
    (hrun : Relation.ReflTransGen (Call f) s₀ s) (hz : z ∈ s.zones) :
    wp (freeBlock f z) (fun _ m' => ZonesChanged f s.mem m'
      fun k => if k = f.index z then false else s.mem.zoneBit f k) (fun _ _ => False) s.mem := by
  obtain ⟨I', hunused⟩ := unused_run I h0 hrun
  obtain ⟨hin, hset⟩ := mem_usedZones.mp (I'.zonesUsed z hz)
  exact wp_mono (freeBlock_spec hin hset (I'.cached z)) (fun _ _ h => h.freed (hunused z)) fun _ _ he => he

/-- A device of 100 blocks, with 64 inodes. -/
def smallFormat : Format where
  dev           := 1
  ninodes       := 64
  nzones        := 100
  imapBlocks    := 1
  zmapBlocks    := 1
  firstdatazone := 8
  dev_ne        := by decide
  imap_le       := by decide
  zmap_le       := by decide
  imap_covers   := by decide
  zmap_covers   := by decide
  behind        := by decide

/-- All its zones and inodes are free. -/
def freshSystem : System where
  mem :=
    { data     := fun _ w => if w = 0 then 1 else 0
      uptodate := fun _ => false
      dirt     := fun _ => false
      cached   := fun _ => false
      count    := fun _ => 0
      inode    := fun _ => noInode }
  zones  := []
  inodes := []

theorem inv_fresh : Inv smallFormat freshSystem := by
  refine ⟨by decide, by decide, List.nodup_nil, fun z hz => ?_, List.nodup_nil, fun p hp => ?_,
    fun _ _ _ => rfl, fun _ _ => rfl⟩
  · exact absurd hz List.not_mem_nil
  · exact absurd hp List.not_mem_nil

/-- Two zones are given out. -/
def twoGiven : Option System := (freshSystem.step smallFormat .newBlock).bind fun s => s.step smallFormat .newBlock

/-- The first of them is freed again. -/
def oneFreed : Option System := twoGiven.bind fun s => s.step smallFormat (.freeBlock 8)

/-- Zones 8 and 9 are given out, 8 is freed again, and the first inode is given out. -/
theorem allocators_are_sets_freed : ∃ s, Relation.ReflTransGen (Step smallFormat) freshSystem s ∧
    s.zones = [9] ∧ s.inodes = [0] ∧ s.mem.zoneBit smallFormat (smallFormat.index 8) = false ∧
      Right smallFormat s := by
  have htwo : twoGiven.map System.zones = some [9, 8] := by decide +kernel
  have hone : oneFreed.map System.inodes = some [] := by decide +kernel
  have hend : (oneFreed.bind fun s => s.step smallFormat (.newInode 0 5 5 7)).map
      (fun s => (s.zones, s.inodes, s.mem.zoneBit smallFormat (smallFormat.index 8))) =
        some ([9], [0], false) := by decide +kernel
  obtain ⟨s, hs, hend⟩ := Option.map_eq_some_iff.mp hend
  obtain ⟨s₃, h₃, h₄⟩ := Option.bind_eq_some_iff.mp hs
  obtain ⟨s₂, h₂₀, h₃₀⟩ := Option.bind_eq_some_iff.mp h₃
  obtain ⟨s₁, h₁, h₂⟩ := Option.bind_eq_some_iff.mp h₂₀
  rw [h₂₀] at htwo
  rw [h₃] at hone
  have hmine : 8 ∈ s₂.zones := by
    rw [Option.some.inj htwo]
    decide
  have hslot : 0 ∉ s₃.inodes := by
    rw [Option.some.inj hone]
    decide
  have hrun : Relation.ReflTransGen (Step smallFormat) freshSystem s :=
    (((Relation.ReflTransGen.single ⟨.newBlock, trivial, h₁⟩).tail ⟨.newBlock, trivial, h₂⟩).tail
      ⟨.freeBlock 8, hmine, h₃₀⟩).tail ⟨.newInode 0 5 5 7, hslot, h₄⟩
  simp only [Prod.mk.injEq] at hend
  exact ⟨s, hrun, hend.1, hend.2.1, hend.2.2, allocators_are_sets inv_fresh hrun⟩

end Linux011.Fs.BitMaps
