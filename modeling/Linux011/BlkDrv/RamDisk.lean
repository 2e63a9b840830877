import Mathlib.Algebra.Group.Nat.Defs
import Linux011.Lib.Region
import Linux011.BlkDrv.Request

/-!
# The ram disk — `kernel/blk_drv/ramdisk.c`

A region of the memory that answers requests as a disk, and `rd_load`, which fills it from
the floppy the system was booted from.

* `agrees_run` — requests and changes of the buffers, in any order, are those of a disk;
* `rdLoad_loads`, `Loads.rdLoad_eq` — when the root device becomes the ram disk, and what is
  on it then;
* `ram_disk` — from `rd_init` on.

The messages `rd_load` prints are left out, and so is the buffer cache it reads the floppy
through: `floppy` is what `bread` gives for a block.
-/

namespace Linux011.BlkDrv.Rd

open Linux011.Lib.Region

abbrev Byte := BitVec 8

def majorNr : Nat := 1
def superMagic : Nat := 0x137f
def blockSize : Nat := 1024

/-- `struct request`. -/
structure Request where
  dev       : Nat
  cmd       : Rw
  sector    : Nat
  nrSectors : Nat
  buffer    : Nat

/-- The memory with the ram disk in it, and how `end_request` ended the requests. -/
structure State where
  mem      : Nat → Byte
  rdStart  : Nat
  rdLength : Nat
  done     : List Bool

inductive Panic
  | requestListDestroyed
  | unknownCommand
  deriving DecidableEq, Repr

def State.endRequest (s : State) (uptodate : Bool) : State := { s with done := s.done ++ [uptodate] }

/-- A pointer after arithmetic on it. -/
def ptr (a : Nat) : Nat := a % 2 ^ 32

/-- `do_rd_request`. -/
def doRdRequest : List Request → State → Except Panic State
  | [], s => .ok s
  | current :: rest, s =>
    if current.dev / 256 ≠ majorNr then .error .requestListDestroyed
    else
      let addr := ptr (s.rdStart + ptr (current.sector <<< 9))
      let len := current.nrSectors <<< 9
      if current.dev % 256 ≠ 1 ∨ ptr (addr + len) > ptr (s.rdStart + s.rdLength) then
        doRdRequest rest (s.endRequest false)
      else
        match current.cmd with
        | .write => doRdRequest rest ({ s with mem := copyUp s.mem addr current.buffer len }.endRequest true)
        | .read => doRdRequest rest ({ s with mem := copyUp s.mem current.buffer addr len }.endRequest true)
        | _ => .error .unknownCommand

/-- The loop of `rd_init`. -/
def clear (m : Nat → Byte) (cp : Nat) : Nat → Nat → Byte
  | 0 => m
  | n + 1 => clear (Function.update m cp 0) (cp + 1) n

def rdInit (m : Nat → Byte) (memStart length : Nat) : State := ⟨clear m memStart length, memStart, length, []⟩

/-- `*((unsigned short *) (b_data + k))`. -/
def word (b : Nat → Byte) (k : Nat) : BitVec 16 := b (k + 1) ++ b k

/-- The loop of `rd_load`, for `n` more blocks: `none` after an I/O error. -/
def loadLoop (floppy : Nat → Option (Nat → Byte)) : Nat → Nat → Nat → State → State × Bool
  | 0, _, _, s => (s, true)
  | n + 1, block, cp, s =>
    match floppy block with
    | none => (s, false)
    | some b => loadLoop floppy n (block + 1) (cp + blockSize) { s with mem := fill s.mem cp blockSize b }

/-- `s.s_nzones << s.s_log_zone_size`, of an `int`. -/
def nblocks (b : Nat → Byte) : BitVec 32 := (word b 2).setWidth 32 <<< ((word b 10).toNat % 32)

/-- `rd_load`, with the root device it leaves. -/
def rdLoad (floppy : Nat → Option (Nat → Byte)) (rootDev : Nat) (s : State) : State × Nat :=
  if s.rdLength = 0 then (s, rootDev)
  else if rootDev / 256 ≠ 2 then (s, rootDev)
  else
    match floppy (256 + 1) with
    | none => (s, rootDev)
    | some b =>
      if (word b 16).toNat ≠ superMagic then (s, rootDev)
      else if (BitVec.ofNat 32 (s.rdLength >>> 10)).slt (nblocks b) then (s, rootDev)
      else
        let (s', ok) := loadLoop floppy (nblocks b).toNat 256 s.rdStart s
        (s', if ok then 0x0101 else rootDev)

/-! ## A disk -/

/-- A change of a buffer, or a request for a block that `make_request` makes. -/
inductive Op
  | edit (b : Nat) (data : Nat → Byte)
  | request (minor : Nat) (write : Bool) (block b : Nat)

/-- What a disk is for: its bytes, those of the buffers, and which requests were done. -/
structure Disk where
  data : Nat → Byte
  buf  : Nat → Nat → Byte
  done : List Bool

/-- A block is read into a buffer or written from it, whole, or nothing changes. -/
def Disk.step (size : Nat) (d : Disk) : Op → Disk
  | .edit b data => { d with buf := Function.update d.buf b data }
  | .request minor write block b =>
    if minor = 1 ∧ (block + 1) * blockSize ≤ size then
      if write then { d with data := fill d.data (block * blockSize) blockSize (d.buf b), done := d.done ++ [true] }
      else
        { d with buf := Function.update d.buf b fun k => d.data (block * blockSize + k), done := d.done ++ [true] }
    else { d with done := d.done ++ [false] }

/-- `make_request` for buffer `b`, whose block is at `bufAt b`. -/
def step (bufAt : Nat → Nat) (s : State) : Op → Except Panic State
  | .edit b data => .ok { s with mem := fill s.mem (bufAt b) blockSize data }
  | .request minor write block b =>
    doRdRequest [⟨0x100 + minor, if write then .write else .read, block <<< 1, 2, bufAt b⟩] s

def run (bufAt : Nat → Nat) : List Op → State → Except Panic State
  | [], s => .ok s
  | op :: ops, s => (step bufAt s op).bind (run bufAt ops)

/-- A block that `block_read` makes of a file position, or the last it reads ahead of it. -/
def maxBlock : Nat := 2 ^ 31 / blockSize + 2

def Op.Valid (nr : Nat) : Op → Prop
  | .edit b _ => b < nr
  | .request minor _ block b => minor < 256 ∧ block ≤ maxBlock ∧ b < nr

/-- Where `main` puts the ram disk: above the buffers, in the first 16 MB. -/
structure Placed (bufAt : Nat → Nat) (nr start length : Nat) : Prop where
  below : ∀ b < nr, bufAt b + blockSize ≤ start
  apart : ∀ b < nr, ∀ b' < nr, b ≠ b' → bufAt b + blockSize ≤ bufAt b' ∨ bufAt b' + blockSize ≤ bufAt b
  fits  : start + length ≤ 0x1000000

/-- The memory shows the disk and the buffers. -/
structure Agrees (bufAt : Nat → Nat) (nr start length : Nat) (s : State) (d : Disk) : Prop where
  rdStart  : s.rdStart = start
  rdLength : s.rdLength = length
  data     : ∀ a < length, s.mem (start + a) = d.data a
  buf      : ∀ b < nr, ∀ k < blockSize, s.mem (bufAt b + k) = d.buf b k
  done     : s.done = d.done

variable {bufAt : Nat → Nat} {nr start length b block minor : Nat} {s : State} {d : Disk}

section

variable (hp : Placed bufAt nr start length) (h : Agrees bufAt nr start length s d)

include hp h

/-- A buffer is filled. -/
theorem Agrees.fillBuf {s' : State} (hb : b < nr) {data : Nat → Byte} {done : List Bool}
    (hs' : s' = { s with mem := fill s.mem (bufAt b) blockSize data, done := done }) :
    Agrees bufAt nr start length s' ⟨d.data, Function.update d.buf b data, done⟩ := by
  subst hs'
  have hbelow := hp.below b hb
  refine ⟨h.rdStart, h.rdLength, fun a ha => ?_, fun b' hb' k hk => ?_, rfl⟩
  · dsimp only
    rw [fill_outside (.inr (by omega)), h.data a ha]
  · dsimp only
    by_cases hbb : b' = b
    · subst hbb
      rw [Function.update_self, fill_at (by omega) (by omega), Nat.add_sub_cancel_left]
    · rw [Function.update_of_ne hbb, ← h.buf b' hb' k hk]
      obtain hlow | hhigh := hp.apart b' hb' b hb hbb
      · exact fill_outside (.inl (by omega))
      · exact fill_outside (.inr (by omega))

/-- A block of the disk is filled. -/
theorem Agrees.fillBlock {s' : State} {data : Nat → Byte} {done : List Bool}
    (hs' : s' = { s with mem := fill s.mem (start + block * blockSize) blockSize data, done := done }) :
    Agrees bufAt nr start length s' ⟨fill d.data (block * blockSize) blockSize data, d.buf, done⟩ := by
  subst hs'
  refine ⟨h.rdStart, h.rdLength, fun a ha => ?_, fun b hb k hk => ?_, rfl⟩
  · dsimp only
    by_cases hin : block * blockSize ≤ a ∧ a < block * blockSize + blockSize
    · rw [fill_at (by omega) (by omega), fill_at hin.1 hin.2, Nat.add_sub_add_left]
    · rw [fill_outside (by omega), fill_outside (by omega), h.data a ha]
  · have hbelow := hp.below b hb
    dsimp only
    rw [fill_outside (.inl (by omega)), h.buf b hb k hk]

theorem agrees_step {op : Op} (hv : op.Valid nr) :
    ∃ s', step bufAt s op = .ok s' ∧ Agrees bufAt nr start length s' (d.step length op) := by
  cases op with
  | edit b data =>
    refine ⟨_, rfl, ?_⟩
    show Agrees bufAt nr start length _ ⟨d.data, Function.update d.buf b data, d.done⟩
    exact h.fillBuf hp hv (by rw [← h.done])
  | request minor write block b =>
    obtain ⟨hminor, hblock, hb⟩ := hv
    have hfits := hp.fits
    have hbelow := hp.below b hb
    have haddr : ptr (s.rdStart + ptr ((block <<< 1) <<< 9)) = start + block * blockSize := by
      rw [h.rdStart, Nat.shiftLeft_eq, Nat.shiftLeft_eq]
      unfold ptr blockSize maxBlock blockSize at *
      omega
    have hrefuse : (0x100 + minor) % 256 ≠ 1 ∨
          ptr (start + block * blockSize + blockSize) > ptr (s.rdStart + s.rdLength) ↔
        ¬ (minor = 1 ∧ (block + 1) * blockSize ≤ length) := by
      rw [h.rdStart, h.rdLength]
      unfold ptr blockSize maxBlock blockSize at *
      omega
    unfold step doRdRequest
    dsimp only
    rw [if_neg (by unfold majorNr; omega), haddr, show 2 <<< 9 = blockSize from rfl]
    unfold Disk.step
    dsimp only
    by_cases hok : minor = 1 ∧ (block + 1) * blockSize ≤ length
    · rw [if_neg (mt hrefuse.mp (not_not.mpr hok)), if_pos hok]
      cases write with
      | true =>
        have hcopy : copyUp s.mem (start + block * blockSize) (bufAt b) blockSize =
            fill s.mem (start + block * blockSize) blockSize (d.buf b) := by
          rw [copyUp_eq (.inr (by omega))]
          exact fill_congr fun k hk => h.buf b hb k hk
        refine ⟨_, rfl, ?_⟩
        rw [hcopy, if_pos rfl, ← h.done]
        exact h.fillBlock hp rfl
      | false =>
        have hcopy : copyUp s.mem (bufAt b) (start + block * blockSize) blockSize =
            fill s.mem (bufAt b) blockSize fun k => d.data (block * blockSize + k) := by
          rw [copyUp_eq (.inl (by omega))]
          refine fill_congr fun k hk => ?_
          rw [Nat.add_assoc]
          exact h.data _ (by rw [Nat.add_mul, Nat.one_mul] at hok; omega)
        refine ⟨_, rfl, ?_⟩
        rw [hcopy, if_neg (by decide), ← h.done]
        exact h.fillBuf hp hb rfl
    · rw [if_pos (hrefuse.mpr hok), if_neg hok]
      refine ⟨_, rfl, h.rdStart, h.rdLength, h.data, h.buf, ?_⟩
      rw [← h.done]
      rfl

/-- Requests for blocks and changes of the buffers, in any order. -/
theorem agrees_run {ops : List Op} (hv : ∀ op ∈ ops, op.Valid nr) :
    ∃ s', run bufAt ops s = .ok s' ∧ Agrees bufAt nr start length s' (ops.foldl (Disk.step length) d) := by
  induction ops generalizing s d with
  | nil => exact ⟨s, rfl, h⟩
  | cons op ops ih =>
    obtain ⟨s', hs', h'⟩ := agrees_step hp h (hv op (by simp))
    obtain ⟨s'', hs'', h''⟩ := ih h' fun o ho => hv o (by simp [ho])
    exact ⟨s'', by rw [run, hs']; exact hs'', h''⟩

end

/-! ## Loading -/

variable {floppy : Nat → Option (Nat → Byte)} {rootDev n cp : Nat} {m : Nat → Byte}

/-- The bytes of the floppy from a block on. -/
def image (floppy : Nat → Option (Nat → Byte)) (block i : Nat) : Byte :=
  ((floppy (block + i / blockSize)).map fun b => b (i % blockSize)).getD 0

theorem clear_eq (m : Nat → Byte) (cp n : Nat) : clear m cp n = fill m cp n fun _ => 0 := by
  induction n generalizing m cp with
  | zero => exact fill_zero.symm
  | succ n ih =>
    rw [clear, ih]
    funext a
    unfold fill
    by_cases ha : a = cp
    · subst ha
      rw [if_neg (by omega), Function.update_self, if_pos (by omega)]
    · rw [Function.update_of_ne ha]
      by_cases hin : cp + 1 ≤ a ∧ a < cp + 1 + n
      · rw [if_pos hin, if_pos (by omega)]
      · rw [if_neg hin, if_neg (by omega)]

/-- The first block of an image, and the rest of it. -/
theorem fill_image {b : Nat → Byte} (hb : floppy block = some b) (n : Nat) :
    fill (fill m cp blockSize b) (cp + blockSize) (n * blockSize) (image floppy (block + 1)) =
      fill m cp ((n + 1) * blockSize) (image floppy block) := by
  have hfirst : fill m cp blockSize b = fill m cp blockSize (image floppy block) := by
    refine fill_congr fun i hi => ?_
    unfold image
    rw [Nat.div_eq_of_lt hi, Nat.mod_eq_of_lt hi, Nat.add_zero, hb]
    rfl
  have hrest : image floppy (block + 1) = fun i => image floppy block (blockSize + i) := by
    funext i
    unfold image
    rw [Nat.add_div_left i (by decide), Nat.add_mod_left, Nat.add_assoc, Nat.add_comm 1]
  rw [hfirst, hrest, fill_append, Nat.add_mul, Nat.one_mul, Nat.add_comm]

theorem loadLoop_spec (floppy : Nat → Option (Nat → Byte)) (n block cp : Nat) (s : State) :
    ((loadLoop floppy n block cp s).2 = true ↔ ∀ i < n, (floppy (block + i)).isSome = true) ∧
    ((loadLoop floppy n block cp s).2 = true → (loadLoop floppy n block cp s).1 =
      { s with mem := fill s.mem cp (n * blockSize) (image floppy block) }) := by
  induction n generalizing block cp s with
  | zero =>
    refine ⟨by simp [loadLoop], fun _ => ?_⟩
    rw [Nat.zero_mul, fill_zero]
    rfl
  | succ n ih =>
    unfold loadLoop
    cases hb : floppy block with
    | none =>
      refine ⟨⟨fun h => absurd h Bool.false_ne_true, fun h => ?_⟩, fun h => absurd h Bool.false_ne_true⟩
      have hfirst := h 0 (Nat.succ_pos n)
      rw [Nat.add_zero, hb] at hfirst
      exact absurd hfirst (by decide)
    | some b =>
      obtain ⟨hok, hmem⟩ := ih (block + 1) (cp + blockSize) { s with mem := fill s.mem cp blockSize b }
      dsimp only
      refine ⟨hok.trans ⟨fun h i hi => ?_, fun h i hi => ?_⟩, fun h => ?_⟩
      · cases i with
        | zero => rw [Nat.add_zero, hb]; rfl
        | succ i =>
          rw [Nat.add_comm i 1, ← Nat.add_assoc]
          exact h i (by omega)
      · rw [Nat.add_assoc, Nat.add_comm 1]
        exact h (i + 1) (by omega)
      · rw [hmem h]
        dsimp only
        rw [fill_image hb]

/-- There is a ram disk, the system was booted from a floppy with an image that fits on it,
and every block of the image can be read. `b` is the block with the size of the image. -/
structure Loads (floppy : Nat → Option (Nat → Byte)) (rootDev length : Nat) (b : Nat → Byte) : Prop where
  isDisk : length ≠ 0
  major  : rootDev / 256 = 2
  super  : floppy 257 = some b
  magic  : (word b 16).toNat = superMagic
  fits   : (BitVec.ofNat 32 (length >>> 10)).slt (nblocks b) = false
  read   : ∀ i < (nblocks b).toNat, (floppy (256 + i)).isSome = true

theorem Loads.rdLoad_eq {b : Nat → Byte} (h : Loads floppy rootDev s.rdLength b) : rdLoad floppy rootDev s =
    ({ s with mem := fill s.mem s.rdStart ((nblocks b).toNat * blockSize) (image floppy 256) }, 0x0101) := by
  obtain ⟨hok, hmem⟩ := loadLoop_spec floppy (nblocks b).toNat 256 s.rdStart s
  unfold rdLoad
  rw [if_neg h.isDisk, if_neg (not_not.mpr h.major), h.super]
  dsimp only
  rw [if_neg (not_not.mpr h.magic), h.fits, if_neg Bool.false_ne_true, hmem (hok.mpr h.read),
    if_pos (hok.mpr h.read)]

/-- The root device is left alone in every other case. -/
theorem rdLoad_loads (hroot : rootDev ≠ 0x0101) (h : (rdLoad floppy rootDev s).2 = 0x0101) :
    ∃ b, Loads floppy rootDev s.rdLength b := by
  unfold rdLoad at h
  by_cases hlength : s.rdLength = 0
  · rw [if_pos hlength] at h
    exact absurd h hroot
  by_cases hmajor : rootDev / 256 = 2
  · rw [if_neg hlength, if_neg (not_not.mpr hmajor)] at h
    cases hb : floppy 257 with
    | none =>
      rw [hb] at h
      exact absurd h hroot
    | some b =>
      rw [hb] at h
      dsimp only at h
      by_cases hmagic : (word b 16).toNat = superMagic
      · rw [if_neg (not_not.mpr hmagic)] at h
        by_cases hfits : (BitVec.ofNat 32 (s.rdLength >>> 10)).slt (nblocks b) = true
        · rw [if_pos hfits] at h
          exact absurd h hroot
        · rw [if_neg hfits] at h
          by_cases hread : (loadLoop floppy (nblocks b).toNat 256 s.rdStart s).2 = true
          · exact ⟨b, hlength, hmajor, hb, hmagic, by simpa using hfits, (loadLoop_spec floppy _ _ _ _).1.mp hread⟩
          · rw [if_neg hread] at h
            exact absurd h hroot
      · rw [if_pos hmagic] at h
        exact absurd h hroot
  · rw [if_neg hlength, if_pos hmajor] at h
    exact absurd h hroot

/-- An image that is loaded lies on the ram disk. -/
theorem Loads.within {b : Nat → Byte} (h : Loads floppy rootDev length b) (hlength : length ≤ 0x1000000)
    (hsize : (nblocks b).toNat < 2 ^ 31) : (nblocks b).toNat * blockSize ≤ length := by
  have hfits := h.fits
  rw [BitVec.slt_eq_decide, decide_eq_false_iff_not] at hfits
  simp only [BitVec.toInt_eq_toNat_cond, BitVec.toNat_ofNat, Nat.shiftRight_eq_div_pow] at hfits
  rw [Nat.mod_eq_of_lt (by omega)] at hfits
  unfold blockSize
  omega

/-- From `rd_init` on: the root device becomes the ram disk exactly if the image can be
loaded, and the ram disk is then a disk with the image on it and zeros after it. -/
theorem ram_disk (hp : Placed bufAt nr start length) (hroot : rootDev ≠ 0x0101) (m : Nat → Byte)
    (floppy : Nat → Option (Nat → Byte)) :
    ((rdLoad floppy rootDev (rdInit m start length)).2 = 0x0101 ↔ ∃ b, Loads floppy rootDev length b) ∧
    ∀ b, Loads floppy rootDev length b → (nblocks b).toNat < 2 ^ 31 → ∀ ops, (∀ op ∈ ops, op.Valid nr) →
      ∃ s', run bufAt ops (rdLoad floppy rootDev (rdInit m start length)).1 = .ok s' ∧
        Agrees bufAt nr start length s' (ops.foldl (Disk.step length)
          ⟨fun a => if a < (nblocks b).toNat * blockSize then image floppy 256 a else 0,
            fun i k => m (bufAt i + k), []⟩) := by
  refine ⟨⟨fun h => rdLoad_loads hroot h, fun ⟨b, h⟩ => ?_⟩, fun b h hsize ops hv => ?_⟩
  · rw [Loads.rdLoad_eq (s := rdInit m start length) h]
  · have hwithin := h.within (by have := hp.fits; omega) hsize
    rw [Loads.rdLoad_eq (s := rdInit m start length) h]
    refine agrees_run hp ⟨rfl, rfl, fun a ha => ?_, fun i hi k hk => ?_, rfl⟩ hv
    · unfold rdInit
      dsimp only
      rw [clear_eq]
      by_cases himage : a < (nblocks b).toNat * blockSize
      · rw [if_pos himage, fill_at (by omega) (by omega), Nat.add_sub_cancel_left]
      · rw [if_neg himage, fill_outside (by omega), fill_at (by omega) (by omega)]
    · have hbelow := hp.below i hi
      unfold rdInit
      dsimp only
      rw [clear_eq, fill_outside (by omega), fill_outside (by omega)]

/-- A floppy with an image of one block, whose bytes are 7. -/
def smallImage (block : Nat) : Option (Nat → Byte) :=
  if block = 257 then some fun i => if i = 2 then 1 else if i = 16 then 0x7f else if i = 17 then 0x13 else 0
  else some fun _ => 7

/-- The first block of it is read into a buffer. -/
theorem ram_disk_read : ∃ s', run (fun b => 0x100000 + b * 1024) [.request 1 false 0 1]
      (rdLoad smallImage 0x208 (rdInit (fun _ => 0) 0x400000 0x80000)).1 = .ok s' ∧
    s'.mem 0x100400 = 7 ∧ s'.done = [true] := by
  have hp : Placed (fun b => 0x100000 + b * 1024) 4 0x400000 0x80000 :=
    ⟨fun b hb => by unfold blockSize; omega, fun b _ b' _ _ => by unfold blockSize; omega, by decide⟩
  have hload : Loads smallImage 0x208 0x80000 ((smallImage 257).getD fun _ => 0) :=
    ⟨by decide, by decide, rfl, by decide, by decide, fun i _ => by
      unfold smallImage
      split_ifs <;> rfl⟩
  obtain ⟨s', hrun, h⟩ := (ram_disk hp (by decide) (fun _ => 0) smallImage).2 _ hload (by decide)
    [.request 1 false 0 1] fun op hop => by
      rw [List.mem_singleton.mp hop]
      exact ⟨by decide, by decide, by decide⟩
  have hbuf := h.buf 1 (by decide) 0 (by decide)
  exact ⟨s', hrun, hbuf.trans (by decide +kernel), h.done⟩

end Linux011.BlkDrv.Rd
