import Mathlib.Data.List.Basic
import Mathlib.Tactic.Common

/-!
# The disk image

`tools/build` joins the boot block, the setup code and the system, less their headers, into
the image that is written to a floppy. The setup code is padded to four sectors, and the
number of the root device is put into the boot block.

* `copy_eq`, `padding_eq` — the loops of `main`;
* `build_image` — what the image is, if `main` ends without an error.
-/

namespace Linux011.Boot

abbrev Byte := BitVec 8

def minixHeader : Nat := 32
def gccHeader : Nat := 1024
def sysSize : Nat := 0x2000
def setupSects : Nat := 4

inductive File
  | boot
  | setup
  | system
  deriving DecidableEq, Repr

/-- Why `main` dies. -/
inductive Die
  | badRootDevice
  | unableToOpen (f : File)
  | unableToReadHeader (f : File)
  | nonMinixHeader (f : File)
  | illegalDataSegment (f : File)
  | illegalBss (f : File)
  | illegalSymbolTable (f : File)
  | bootBlockSize
  | noBootFlag
  | setupExceeds
  | nonGccHeader
  | systemTooBig
  deriving DecidableEq, Repr

/-- The fourth argument: there is none, it is `FLOPPY`, or it is a device. -/
inductive RootArg
  | default
  | floppy
  | device (rdev : BitVec 16)
  deriving DecidableEq, Repr

/-- `minor_root` and `major_root`. -/
def RootArg.numbers : RootArg → Byte × Byte
  | .default => (6, 3)
  | .floppy => (0, 0)
  | .device rdev => (rdev.extractLsb' 0 8, rdev.extractLsb' 8 8)

/-- `((long *) buf)[k]`. -/
def long (buf : List Byte) (k : Nat) : BitVec 32 :=
  buf.getD (4 * k + 3) 0 ++ buf.getD (4 * k + 2) 0 ++ buf.getD (4 * k + 1) 0 ++ buf.getD (4 * k) 0

/-- The header of `boot` and of `setup`, which `ld86` makes. -/
def checkMinix (f : File) (buf : List Byte) : Except Die Unit :=
  if buf.length ≠ minixHeader then .error (.unableToReadHeader f)
  else if long buf 0 ≠ 0x04100301 then .error (.nonMinixHeader f)
  else if long buf 1 ≠ 32 then .error (.nonMinixHeader f)
  else if long buf 3 ≠ 0 then .error (.illegalDataSegment f)
  else if long buf 4 ≠ 0 then .error (.illegalBss f)
  else if long buf 5 ≠ 0 then .error (.nonMinixHeader f)
  else if long buf 7 ≠ 0 then .error (.illegalSymbolTable f)
  else .ok ()

/-- The loop that reads into `buf` and writes what it has read. -/
def copy : Nat → List Byte → List Byte
  | 0, _ => []
  | n + 1, rest => if rest.take 1024 = [] then [] else rest.take 1024 ++ copy n (rest.drop 1024)

/-- The loop that writes zeros up to the end of the setup sectors. -/
def padding : Nat → Nat → List Byte
  | 0, _ => []
  | n + 1, i =>
    if i < setupSects * 512 then
      let c := min (setupSects * 512 - i) 1024
      List.replicate c 0 ++ padding n (i + c)
    else []

/-- The part of `main` about the boot block. A file is what can be read from it, and nothing
if it cannot be opened. -/
def bootBlock (boot : Option (List Byte)) (root : RootArg) : Except Die (List Byte) :=
  match boot with
  | none => .error (.unableToOpen .boot)
  | some id =>
    match checkMinix .boot (id.take minixHeader) with
    | .error e => .error e
    | .ok () =>
      let buf := (id.drop minixHeader).take 1024
      if buf.length ≠ 512 then .error .bootBlockSize
      else if buf.getD 511 0 ++ buf.getD 510 0 ≠ 0xAA55#16 then .error .noBootFlag
      else .ok ((buf.set 508 root.numbers.1).set 509 root.numbers.2)

def setupCode (setup : Option (List Byte)) : Except Die (List Byte) :=
  match setup with
  | none => .error (.unableToOpen .setup)
  | some id =>
    match checkMinix .setup (id.take minixHeader) with
    | .error e => .error e
    | .ok () =>
      let code := copy (id.length + 1) (id.drop minixHeader)
      if setupSects * 512 < code.length then .error .setupExceeds
      else .ok (code ++ padding (setupSects + 1) code.length)

def systemCode (system : Option (List Byte)) : Except Die (List Byte) :=
  match system with
  | none => .error (.unableToOpen .system)
  | some id =>
    if (id.take gccHeader).length ≠ gccHeader then .error (.unableToReadHeader .system)
    else if long (id.take gccHeader) 5 ≠ 0 then .error .nonGccHeader
    else
      let sys := copy (id.length + 1) (id.drop gccHeader)
      if sysSize * 16 < sys.length then .error .systemTooBig else .ok sys

/-- `main`. -/
def build (boot setup system : Option (List Byte)) (root : RootArg) : Except Die (List Byte) :=
  if root.numbers.2 ≠ 2 ∧ root.numbers.2 ≠ 3 ∧ root.numbers.2 ≠ 0 then .error .badRootDevice
  else do
    let block ← bootBlock boot root
    let code ← setupCode setup
    let sys ← systemCode system
    return block ++ code ++ sys

/-- The loop copies all of the file that is left. -/
theorem copy_eq (n : Nat) (rest : List Byte) (h : rest.length < n) : copy n rest = rest := by
  induction n generalizing rest with
  | zero => omega
  | succ n ih =>
    unfold copy
    cases rest with
    | nil => rfl
    | cons b l =>
      rw [if_neg (by simp), ih _ (by simp only [List.length_drop, List.length_cons] at h ⊢; omega)]
      exact List.take_append_drop 1024 (b :: l)

theorem padding_eq (n i : Nat) (hi : i ≤ setupSects * 512) (hn : setupSects * 512 - i ≤ 1024 * n) :
    padding n i = List.replicate (setupSects * 512 - i) 0 := by
  induction n generalizing i with
  | zero =>
    rw [Nat.eq_zero_of_le_zero hn]
    rfl
  | succ n ih =>
    unfold padding
    split_ifs with hlt
    · dsimp only
      rw [ih _ (by omega) (by omega), List.replicate_append_replicate]
      congr 1
      omega
    · rw [Nat.sub_eq_zero_of_le (Nat.not_lt.mp hlt)]
      rfl

variable {boot setup system : List Byte} {root : RootArg} {image out : List Byte}

theorem bootBlock_ok (h : bootBlock (some boot) root = .ok out) : (boot.drop minixHeader).length = 512 ∧
    out = ((boot.drop minixHeader).set 508 root.numbers.1).set 509 root.numbers.2 := by
  unfold bootBlock at h
  dsimp only at h
  split at h
  · cases h
  · split_ifs at h with hlen hflag
    have hall : (boot.drop minixHeader).length = 512 := by
      have hmin := List.length_take (i := 1024) (l := boot.drop minixHeader)
      omega
    rw [List.take_of_length_le (by omega)] at h
    exact ⟨hall, (Except.ok.inj h).symm⟩

theorem setupCode_ok (h : setupCode (some setup) = .ok out) :
    (setup.drop minixHeader).length ≤ setupSects * 512 ∧ out = setup.drop minixHeader ++
      List.replicate (setupSects * 512 - (setup.drop minixHeader).length) 0 := by
  unfold setupCode at h
  dsimp only at h
  split at h
  · cases h
  · rw [copy_eq _ _ (by rw [List.length_drop]; omega)] at h
    split_ifs at h with hlen
    have hle := Nat.not_lt.mp hlen
    refine ⟨hle, ?_⟩
    rw [← padding_eq (setupSects + 1) _ hle (Nat.le_trans (Nat.sub_le _ _) (by decide))]
    exact (Except.ok.inj h).symm

theorem systemCode_ok (h : systemCode (some system) = .ok out) :
    (system.drop gccHeader).length ≤ sysSize * 16 ∧ out = system.drop gccHeader := by
  unfold systemCode at h
  dsimp only at h
  rw [copy_eq _ _ (by rw [List.length_drop]; omega)] at h
  split_ifs at h with _ _ hlen
  exact ⟨Nat.not_lt.mp hlen, (Except.ok.inj h).symm⟩

/-- What an image is made of. -/
structure Image (boot setup system : List Byte) (root : RootArg) (image : List Byte) : Prop where
  blockLen  : (boot.drop minixHeader).length = 512
  setupLen  : (setup.drop minixHeader).length ≤ setupSects * 512
  systemLen : (system.drop gccHeader).length ≤ sysSize * 16
  image     : image = ((boot.drop minixHeader).set 508 root.numbers.1).set 509 root.numbers.2 ++
    (setup.drop minixHeader ++ List.replicate (setupSects * 512 - (setup.drop minixHeader).length) 0) ++
    system.drop gccHeader

theorem build_image (h : build (some boot) (some setup) (some system) root = .ok image) :
    Image boot setup system root image := by
  unfold build at h
  split_ifs at h
  cases hblock : bootBlock (some boot) root with
  | error e =>
    rw [hblock] at h
    cases h
  | ok block =>
    cases hcode : setupCode (some setup) with
    | error e =>
      rw [hblock, hcode] at h
      cases h
    | ok code =>
      cases hsys : systemCode (some system) with
      | error e =>
        rw [hblock, hcode, hsys] at h
        cases h
      | ok sys =>
        rw [hblock, hcode, hsys] at h
        obtain ⟨hlen, rfl⟩ := bootBlock_ok hblock
        obtain ⟨hsetup, rfl⟩ := setupCode_ok hcode
        obtain ⟨hsystem, rfl⟩ := systemCode_ok hsys
        exact ⟨hlen, hsetup, hsystem, (Except.ok.inj h).symm⟩

end Linux011.Boot
