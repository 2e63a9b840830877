import Linux011.Kernel.Segment

/-!
# The header of an executable — the checks of `do_execve`

What `do_execve` accepts, the segments that `change_ldt` then sets up, and
`end_code`, `end_data` and `brk`.  Every sum is a sum of machine words.

* `codeSize` — the length of the code segment, which an empty text makes 4 GB;
* `confined_iff` — an accepted program stays in its slot exactly when its text is
  not empty and none of the sums has gone round.
-/

namespace Linux011.Fs.ExecHeader

open Linux011.Kernel.Segment

abbrev Word := BitVec 32

/-- `struct exec`. -/
structure Exec where
  aMagic  : Word
  aText   : Word
  aData   : Word
  aBss    : Word
  aSyms   : Word
  aEntry  : Word
  aTrsize : Word
  aDrsize : Word
  deriving DecidableEq, Repr

def zmagic : Word := 0o413

def segmentSize : Word := 1024

/-- `sizeof (struct exec)`. -/
def headerSize : Word := 32

def blockSize : Word := 1024

def pageSize : Word := 4096

namespace Exec

/-- `N_MAGIC`. -/
def nMagic (ex : Exec) : Word := ex.aMagic

/-- `_N_HDROFF`. -/
def nHdroff (_ex : Exec) : Word := segmentSize - headerSize

/-- `N_TXTOFF`. -/
def nTxtoff (ex : Exec) : Word :=
  if ex.nMagic = zmagic then ex.nHdroff + headerSize else headerSize

/-- The first check of the header. -/
def wellFormed (ex : Exec) (iSize : Word) : Bool :=
  !(ex.nMagic != zmagic || ex.aTrsize != 0 || ex.aDrsize != 0 ||
    0x3000000 < (ex.aText + ex.aData + ex.aBss).toNat ||
    iSize.toNat < (ex.aText + ex.aData + ex.aSyms + ex.nTxtoff).toNat)

/-- The second check, `N_TXTOFF(ex) != BLOCK_SIZE`. -/
def blockAligned (ex : Exec) : Bool := ex.nTxtoff == blockSize

/-- `do_execve` gets past the header. -/
def accepts (ex : Exec) (iSize : Word) : Bool := ex.wellFormed iSize && ex.blockAligned

/-! ## What is set up -/

def endCode (ex : Exec) : Word := ex.aText

def endData (ex : Exec) : Word := ex.aData + ex.endCode

def brk (ex : Exec) : Word := ex.aBss + ex.endData

end Exec

/-- `code_limit`. -/
def codeLimit (textSize : Word) : Word := (textSize + pageSize - 1) &&& 0xfffff000

/-- `data_limit`. -/
def dataLimit : Word := 0x4000000

/-- The segments of `change_ldt`. -/
def changeLimits (ldt : Ldt) (textSize : Word) : Ldt where
  code  := (ldt.code.setBase ldt.code.getBase).setLimit (codeLimit textSize)
  data  := (ldt.data.setBase ldt.code.getBase).setLimit dataLimit
  codeG := by rw [Desc.granular_setLimit, Desc.granular_setBase, ldt.codeG]
  dataG := by rw [Desc.granular_setLimit, Desc.granular_setBase, ldt.dataG]

/-! ## The length of the segments -/

/-- Rounding up to pages, which goes round in the last page. -/
theorem codeLimit_toNat (w : Word) :
    (codeLimit w).toNat = (w.toNat + 4095) % 2 ^ 32 / 4096 * 4096 := by
  unfold codeLimit pageSize
  have hmask (v : Word) : v &&& (0xfffff000 : Word) = v >>> 12 <<< 12 := by
    rw [BitVec.shiftLeft_ushiftRight]
    rfl
  have hsum : (w + 4096 - 1).toNat = (w.toNat + 4095) % 2 ^ 32 := by
    have := w.isLt
    rw [BitVec.toNat_sub, BitVec.toNat_add]
    simp
    omega
  rw [hmask, BitVec.toNat_shiftLeft, BitVec.toNat_ushiftRight, hsum,
    Nat.shiftRight_eq_div_pow, Nat.shiftLeft_eq]
  have := Nat.mod_lt (w.toNat + 4095) (Nat.two_pow_pos 32)
  omega

theorem dataSize (ldt : Ldt) (w : Word) : (changeLimits ldt w).data.size = 0x4000000 := by
  unfold changeLimits
  dsimp only
  rw [Desc.size_setLimit _ _ (by rw [Desc.granular_setBase, ldt.dataG])]
  rfl

/-- The code segment is the text in whole pages. -/
theorem codeSize (ldt : Ldt) {w : Word} (h0 : w ≠ 0) (hw : w.toNat ≤ 0x3000000) :
    (changeLimits ldt w).code.size = (w.toNat + 4095) / 4096 * 4096 := by
  have hpos : w.toNat ≠ 0 := fun h => h0 (BitVec.eq_of_toNat_eq h)
  have hlim := codeLimit_toNat w
  rw [Nat.mod_eq_of_lt (by omega)] at hlim
  unfold changeLimits
  dsimp only
  rw [Desc.size_setLimit _ _ (by rw [Desc.granular_setBase, ldt.codeG]), BitVec.toNat_sub, hlim]
  simp
  omega

/-- **An empty text opens the whole address space.** -/
theorem codeSize_zero (ldt : Ldt) : (changeLimits ldt 0).code.size = 2 ^ 32 :=
  Desc.size_setLimit_zero _ (by rw [Desc.granular_setBase, ldt.codeG])

theorem code_base (ldt : Ldt) (w : Word) : (changeLimits ldt w).code.base = ldt.code.getBase :=
  Desc.getBase_setBase ldt.code ldt.code.getBase

theorem data_base (ldt : Ldt) (w : Word) : (changeLimits ldt w).data.base = ldt.code.getBase :=
  Desc.getBase_setBase ldt.data ldt.code.getBase

/-! ## Confinement -/

/-- What an accepted program should be held to. -/
structure Confined (ldt : Ldt) (ex : Exec) (iSize : Word) : Prop where
  small     : ex.aText.toNat + ex.aData.toNat + ex.aBss.toNat ≤ 0x3000000
  inFile    : 1024 + ex.aText.toNat + ex.aData.toNat + ex.aSyms.toNat ≤ iSize.toNat
  codeData  : ex.endCode.toNat ≤ ex.endData.toNat
  dataBrk   : ex.endData.toNat ≤ ex.brk.toNat
  holdsText : ex.aText.toNat ≤ (changeLimits ldt ex.aText).code.size
  limited   : (changeLimits ldt ex.aText).code.size ≤ (changeLimits ldt ex.aText).data.size
  inSlot    : ∀ a, (changeLimits ldt ex.aText).code.Reaches a ∨
                (changeLimits ldt ex.aText).data.Reaches a →
              ldt.code.base.toNat ≤ a ∧ a < ldt.code.base.toNat + 0x4000000

/-- The sums of the checks have not gone round. -/
structure NoWrap (ex : Exec) : Prop where
  image : ex.aText.toNat + ex.aData.toNat + ex.aBss.toNat < 2 ^ 32
  file  : ex.aText.toNat + ex.aData.toNat + ex.aSyms.toNat + 1024 < 2 ^ 32

/-- What the checks say, of sums modulo `2 ^ 32`. -/
theorem accepts_iff {ex : Exec} {iSize : Word} : ex.accepts iSize = true ↔
    ex.aMagic = zmagic ∧ ex.aTrsize = 0 ∧ ex.aDrsize = 0 ∧
      (ex.aText.toNat + ex.aData.toNat + ex.aBss.toNat) % 2 ^ 32 ≤ 0x3000000 ∧
      (ex.aText.toNat + ex.aData.toNat + ex.aSyms.toNat + 1024) % 2 ^ 32 ≤ iSize.toNat := by
  by_cases hm : ex.aMagic = zmagic
  · have htxt : ex.nTxtoff = 1024 := by
      unfold Exec.nTxtoff Exec.nMagic
      rw [if_pos hm]
      rfl
    simp [Exec.accepts, Exec.wellFormed, Exec.blockAligned, Exec.nMagic, blockSize, htxt, hm,
      and_assoc]
  · simp [Exec.accepts, Exec.wellFormed, Exec.nMagic, hm]

theorem confined {ldt : Ldt} {ex : Exec} {iSize : Word} (h : ex.accepts iSize = true)
    (hw : NoWrap ex) (h0 : ex.aText ≠ 0) : Confined ldt ex iSize := by
  obtain ⟨_, _, _, hsmall, hfile⟩ := accepts_iff.mp h
  rw [Nat.mod_eq_of_lt hw.image] at hsmall
  rw [Nat.mod_eq_of_lt hw.file] at hfile
  have hcode : (changeLimits ldt ex.aText).code.size = (ex.aText.toNat + 4095) / 4096 * 4096 :=
    codeSize ldt h0 (by omega)
  have hdata := dataSize ldt ex.aText
  have hendData : ex.endData.toNat = ex.aText.toNat + ex.aData.toNat := by
    unfold Exec.endData Exec.endCode
    rw [BitVec.toNat_add, Nat.mod_eq_of_lt (by omega)]
    omega
  have hbrk : ex.brk.toNat = ex.aText.toNat + ex.aData.toNat + ex.aBss.toNat := by
    unfold Exec.brk
    rw [BitVec.toNat_add, hendData, Nat.mod_eq_of_lt (by omega)]
    omega
  constructor
  case small => exact hsmall
  case inFile => omega
  case codeData =>
    unfold Exec.endCode
    omega
  case dataBrk => omega
  case holdsText => omega
  case limited => omega
  case inSlot =>
    intro a ha
    unfold Desc.Reaches at ha
    rw [code_base, data_base, hcode, hdata] at ha
    have hbase : ldt.code.getBase = ldt.code.base := rfl
    rw [hbase] at ha
    omega

/-- **An accepted program is confined** to its 64 MB exactly when it has a text and the sums of
the checks do not go round; the checks are meant to give this for every header. -/
theorem confined_iff (ldt : Ldt) (ex : Exec) (iSize : Word) (h : ex.accepts iSize = true) :
    Confined ldt ex iSize ↔ NoWrap ex ∧ ex.aText ≠ 0 := by
  constructor
  · intro hc
    have hsize := iSize.isLt
    have hsmall := hc.small
    have hfile := hc.inFile
    have hlim := hc.limited
    rw [dataSize] at hlim
    have htext : ex.aText ≠ 0 := by
      intro h0
      rw [h0, codeSize_zero] at hlim
      omega
    exact ⟨⟨by omega, by omega⟩, htext⟩
  · intro ⟨hw, h0⟩
    exact confined h hw h0

/-- A header of 8 pages, as `init` has one. -/
def smallExec : Exec := ⟨zmagic, 0x4000, 0x2000, 0x2000, 0, 0, 0, 0⟩

theorem confined_small : Confined initLdt smallExec 0x8000 :=
  (confined_iff initLdt smallExec 0x8000 (by decide)).mpr ⟨⟨by decide, by decide⟩, by decide⟩

/-- Text and data of 2 GB each: the sums of the checks are 0 and 1024. -/
def hugeExec : Exec := ⟨zmagic, 0x80000000, 0x80000000, 0, 0, 0, 0, 0⟩

/-- Nothing but a header block. -/
def emptyExec : Exec := ⟨zmagic, 0, 0, 0, 0, 0, 0, 0⟩

/-- Two accepted headers: one whose sums go round, and one without text, whose code
segment is the whole address space. -/
theorem not_confined :
    (hugeExec.accepts 1024 = true ∧ ¬ Confined initLdt hugeExec 1024) ∧
      emptyExec.accepts 1024 = true ∧ ¬ Confined initLdt emptyExec 1024 := by
  constructor
  · constructor
    · decide
    · intro hc
      exact absurd hc.small (by decide)
  · constructor
    · decide
    · intro hc
      exact absurd hc.limited (by decide)

end Linux011.Fs.ExecHeader
