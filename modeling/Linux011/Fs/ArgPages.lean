import Linux011.Mm.Verify
import Mathlib.Data.Finset.Card

/-!
# Argument pages — `copy_strings` of `fs/exec.c`

The strings of the arguments and of the environment, copied from the last byte
to the first into an area of 32 pages, of which each is got when the first byte
goes there.  What is read of the caller is given as strings; the fs register says
from which segment, and a read from the other one stops the run.

* `copyByte_spec` — one byte goes below the others, or no page was free, or the
  area was full and the index is out of `page`;
* `copyStrings_spec` — one call, which does not see that the area is full;
* `freePages_spec` — the loop of `exec_error1` gives every page back.
-/

namespace Linux011.Fs.ArgPages

open Linux011.Lib Linux011.Mm

abbrev Word := BitVec 32

/-- The segments fs can be set to. -/
inductive Seg
  | user
  | kernel
  deriving DecidableEq, Repr

/-- Why a routine does not come back: a panic, a read from the wrong segment, or an
index that is not one of `page`. -/
inductive Stuck
  | stop (e : Stop)
  | argcWrong
  | wrongSegment
  | outOfPage (i : Nat)
  deriving DecidableEq, Repr

/-- Memory, the fs register, and the array `page` of `do_execve`. -/
structure Area where
  mem  : Mem
  fs   : Seg
  page : Nat → Nat

abbrev Ar := EStateM Stuck Area

/-- An array of strings, the segment it lies in, and that of the strings. -/
structure Strings where
  array : Seg
  text  : Seg
  strs  : List (List Byte)

def maxArgPages : Nat := 32

/-- Where the strings end: `PAGE_SIZE*MAX_ARG_PAGES-4`. -/
def areaTop : Nat := 4096 * maxArgPages - 4

variable {α : Type}

/-- A routine of the memory manager. -/
def ofMm (x : MM α) : Ar α := fun a =>
  match x a.mem with
  | .ok r m => .ok r { a with mem := m }
  | .error e m => .error (.stop e) { a with mem := m }

def setFs (g : Seg) : Ar Unit := modify fun a => { a with fs := g }

def setPage (i addr : Nat) : Ar Unit := modify fun a => { a with page := Function.update a.page i addr }

/-- fs points to the segment that is read. -/
def reads (g : Seg) : Ar Unit := do
  if (← get).fs = g then return () else throw .wrongSegment

/-- `get_fs_long` of entry `i` of an array, which ends with NULL. -/
def getString (v : Strings) (i : Nat) : Ar (List Byte) := do
  reads v.array
  match v.strs[i]? with
  | none => throw .argcWrong
  | some tmp => return tmp

/-- `page[i]`, got when there is none. -/
def pageAt (i : Nat) : Ar Nat := do
  if maxArgPages ≤ i then throw (.outOfPage i)
  else
    let a ← get
    if a.page i ≠ 0 then return a.page i
    else
      let pag ← ofMm getFreePage
      setPage i pag
      return pag

/-- The variables of `copy_strings`. -/
structure Loc where
  p      : Word
  offset : Int
  pag    : Nat

/-- `*(pag + offset) = get_fs_byte(tmp)`. -/
def putByte (v : Strings) (l : Loc) (b : Byte) : Ar Unit := do
  reads v.text
  ofMm (storeByte (l.pag + l.offset.toNat) b)

/-- A round of the inner loop. Nothing if no page is free. -/
def copyByte (v : Strings) (fromKmem : Nat) (oldFs : Seg) (l : Loc) (b : Byte) : Ar (Option Loc) := do
  let p := l.p - 1
  if l.offset - 1 < 0 then
    whenever (fromKmem = 2) (setFs oldFs)
    let pag ← pageAt (p.toNat / 4096)
    if pag = 0 then return none
    else
      whenever (fromKmem = 2) (setFs .kernel)
      putByte v ⟨p, (p.toNat % 4096 : Nat), pag⟩ b
      return some ⟨p, (p.toNat % 4096 : Nat), pag⟩
  else
    putByte v ⟨p, l.offset - 1, l.pag⟩ b
    return some ⟨p, l.offset - 1, l.pag⟩

/-- The inner loop, over the bytes from the last to the first. -/
def copyBytes (v : Strings) (fromKmem : Nat) (oldFs : Seg) : List Byte → Loc → Ar (Option Loc)
  | [], l => return some l
  | b :: bs, l => do
    match ← copyByte v fromKmem oldFs l b with
    | none => return none
    | some l => copyBytes v fromKmem oldFs bs l

/-- The outer loop, over the strings from the last to the first. -/
def copyLoop (v : Strings) (fromKmem : Nat) (oldFs : Seg) : Nat → Loc → Ar (Option Loc)
  | 0, l => return some l
  | argc + 1, l => do
    whenever (fromKmem = 1) (setFs .kernel)
    let tmp ← getString v argc
    whenever (fromKmem = 1) (setFs oldFs)
    reads v.text
    let len := tmp.length + 1
    -- both are unsigned here
    if (l.p - BitVec.ofNat 32 len).toNat < 0 then
      setFs oldFs
      return none
    else
      match ← copyBytes v fromKmem oldFs (tmp ++ [0#8]).reverse l with
      | none => return none
      | some l => copyLoop v fromKmem oldFs argc l

/-- `copy_strings`. -/
def copyStrings (argc : Int) (v : Strings) (p : Word) (fromKmem : Nat) : Ar Word := do
  if p = 0 then return 0
  else
    let oldFs := (← get).fs
    whenever (fromKmem = 2) (setFs .kernel)
    match ← copyLoop v fromKmem oldFs argc.toNat ⟨p, 0, 0⟩ with
    | none => return 0
    | some l =>
      whenever (fromKmem = 2) (setFs oldFs)
      return l.p

/-- The loop of `exec_error1`. -/
def freePages : Ar Unit := upTo maxArgPages fun i => do
  let a ← get
  ofMm (freePage (a.page i))

/-! ## The calculus -/

@[simp] theorem wp_ofMm (x : MM α) (Q : α → Area → Prop) (E : Stuck → Area → Prop) (a : Area) :
    wp (ofMm x) Q E a ↔
      wp x (fun r m => Q r { a with mem := m }) (fun e m => E (.stop e) { a with mem := m }) a.mem := by
  unfold wp ofMm
  cases x a.mem <;> exact Iff.rfl

@[simp] theorem wp_setFs (g : Seg) (Q : Unit → Area → Prop) (E : Stuck → Area → Prop) (a : Area) :
    wp (setFs g) Q E a ↔ Q () { a with fs := g } := Iff.rfl

@[simp] theorem wp_setPage (i addr : Nat) (Q : Unit → Area → Prop) (E : Stuck → Area → Prop) (a : Area) :
    wp (setPage i addr) Q E a ↔ Q () { a with page := Function.update a.page i addr } := Iff.rfl

theorem wp_reads {g : Seg} {Q : Unit → Area → Prop} {E : Stuck → Area → Prop} {a : Area}
    (h : a.fs = g) : wp (reads g) Q E a ↔ Q () a := by
  unfold reads
  rw [wp_bind, wp_get, if_pos h, wp_pure]

theorem loadByte_byteStored (s : Mem) (x y : Nat) (b : Byte) :
    loadByte (byteStored s x b) y = if y = x then b else loadByte s y := by
  unfold loadByte byteStored
  dsimp only
  by_cases hxy : y = x
  · rw [if_pos hxy, hxy, Function.update_self, getByte_setByte _ (Nat.mod_lt _ (by decide))]
  · rw [if_neg hxy]
    by_cases hword : y / 4 = x / 4
    · rw [hword, Function.update_self,
        getByte_setByte_of_ne _ (Nat.mod_lt _ (by decide)) (by omega)]
    · rw [Function.update_of_ne hword]

/-! ## The area -/

/-- The byte at a place of the area. -/
def Area.byteAt (a : Area) (q : Nat) : Byte := loadByte a.mem (a.page (q / 4096) + q % 4096)

/-- The number of pages that can be had. -/
def freeCount (s : Mem) : Nat := ((Finset.range pagingPages).filter fun i => s.memMap i = 0).card

/-- The pages of the area were free in `s₀`, and apart from them memory is as in `s₀`. -/
structure Pages (s₀ : Mem) (a : Area) : Prop where
  frame : ∀ i < 32, a.page i ≠ 0 →
    ∃ f, a.page i = f * 4096 ∧ 256 ≤ f ∧ f < 4096 ∧ s₀.memMap (f - 256) = 0
  inj   : ∀ i < 32, ∀ j < 32, a.page i = a.page j → a.page i ≠ 0 → i = j
  used  : ∀ i < 32, ∀ m, a.page i = (m + 256) * 4096 → a.mem.memMap m = 1
  rest  : ∀ m, (∀ i < 32, a.page i ≠ (m + 256) * 4096) → a.mem.memMap m = s₀.memMap m
  other : ∀ x, (∀ i < 32, a.page i ≠ 0 → a.page i ≠ x / 1024 * 4096) → a.mem.phys x = s₀.phys x
  high  : a.mem.highMemory = s₀.highMemory

/-- The area from `p` on holds `bytes`, and there are the pages for them. -/
structure Laid (s₀ : Mem) (a : Area) (p : Nat) (bytes : List Byte) : Prop extends Pages s₀ a where
  size  : p + bytes.length = areaTop
  there : ∀ i < 32, a.page i ≠ 0 ↔ p < areaTop ∧ p / 4096 ≤ i
  holds : ∀ k (hk : k < bytes.length), a.byteAt (p + k) = bytes[k]

/-- `l` says where the last byte went: at the start of a page, or in page `pag`. -/
structure Loc.At (l : Loc) (a : Area) (p : Nat) : Prop where
  pos : l.p.toNat = p
  off : l.offset = 0 ∨
    (l.offset = (p % 4096 : Nat) ∧ p < areaTop ∧ l.pag = a.page (p / 4096))

variable {s₀ : Mem} {a : Area} {p : Nat} {bytes : List Byte} {l : Loc}

/-- The area with nothing in it. -/
theorem laid_nil (s : Mem) (fs : Seg) : Laid s ⟨s, fs, fun _ => 0⟩ areaTop [] where
  frame i _ h := absurd rfl h
  inj i _ j _ _ h := absurd rfl h
  used i _ m h := by
    have h : 0 = (m + 256) * 4096 := h
    omega
  rest _ _ := rfl
  other _ _ := rfl
  high := rfl
  size := rfl
  there i _ := by simp
  holds k hk := absurd hk (by simp)

/-- The frames of the pages, as indices of `mem_map`. -/
theorem Pages.index (h : Pages s₀ a) {i : Nat} (hi : i < 32) (hne : a.page i ≠ 0) :
    a.page i / 4096 - 256 < pagingPages ∧ s₀.memMap (a.page i / 4096 - 256) = 0 ∧
      256 ≤ a.page i / 4096 ∧ a.page i / 4096 * 4096 = a.page i := by
  obtain ⟨f, hf, h256, h4096, h0⟩ := h.frame i hi hne
  have hdiv : a.page i / 4096 = f := by omega
  have hpp : pagingPages = 3840 := by decide
  rw [hdiv, hpp]
  exact ⟨by omega, h0, h256, by omega⟩

/-- A full area took 32 pages. -/
theorem Laid.full (h : Laid s₀ a 0 bytes) : 32 ≤ freeCount s₀ := by
  have hne : ∀ i < 32, a.page i ≠ 0 := fun i hi => (h.there i hi).mpr ⟨by decide, by omega⟩
  have hsub : (Finset.range 32).image (fun i => a.page i / 4096 - 256) ⊆
      (Finset.range pagingPages).filter fun i => s₀.memMap i = 0 := by
    intro m hm
    obtain ⟨i, hi, rfl⟩ := Finset.mem_image.mp hm
    have hi' := Finset.mem_range.mp hi
    obtain ⟨hlt, h0, -, -⟩ := h.index hi' (hne i hi')
    exact Finset.mem_filter.mpr ⟨Finset.mem_range.mpr hlt, h0⟩
  have hinj : Set.InjOn (fun i => a.page i / 4096 - 256) (Finset.range 32 : Finset Nat) := by
    intro i hi j hj heq
    have hi' := Finset.mem_range.mp (Finset.mem_coe.mp hi)
    have hj' := Finset.mem_range.mp (Finset.mem_coe.mp hj)
    obtain ⟨-, -, hgei, hi4⟩ := h.index hi' (hne i hi')
    obtain ⟨-, -, hgej, hj4⟩ := h.index hj' (hne j hj')
    dsimp only at heq
    exact h.inj i hi' j hj' (by omega) (hne i hi')
  have hcard := Finset.card_le_card hsub
  rw [Finset.card_image_of_injOn hinj, Finset.card_range] at hcard
  exact hcard

/-- When no page is free and one of the area is missing, there were less than 32. -/
theorem Pages.scarce (h : Pages s₀ a) (hnone : ∀ m < pagingPages, a.mem.memMap m ≠ 0) {i : Nat}
    (hi : i < 32) (hmiss : a.page i = 0) : freeCount s₀ < 32 := by
  have hsub : ((Finset.range pagingPages).filter fun m => s₀.memMap m = 0) ⊆
      ((Finset.range 32).erase i).image fun j => a.page j / 4096 - 256 := by
    intro m hm
    obtain ⟨hlt, h0⟩ := Finset.mem_filter.mp hm
    have hused := hnone m (Finset.mem_range.mp hlt)
    by_contra hout
    refine hused ((h.rest m ?_).trans h0)
    intro j hj heq
    refine hout (Finset.mem_image.mpr ⟨j, Finset.mem_erase.mpr ⟨?_, Finset.mem_range.mpr hj⟩, ?_⟩)
    · rintro rfl
      omega
    · omega
  have hcard := Finset.card_le_card hsub
  have himage := Finset.card_image_le (s := (Finset.range 32).erase i)
    (f := fun j => a.page j / 4096 - 256)
  rw [Finset.card_erase_of_mem (Finset.mem_range.mpr hi), Finset.card_range] at himage
  unfold freeCount
  omega

/-! ## One byte -/

/-- The area from `p` on holds `bytes`, and there is the page for the byte below. -/
structure Room (s₀ : Mem) (a : Area) (p : Nat) (bytes : List Byte) : Prop extends Pages s₀ a where
  pos   : 0 < p
  size  : p + bytes.length = areaTop
  there : ∀ i < 32, a.page i ≠ 0 ↔ (p - 1) / 4096 ≤ i
  holds : ∀ k (hk : k < bytes.length), a.byteAt (p + k) = bytes[k]

/-- A store into a page of the area. -/
theorem Pages.store (h : Pages s₀ a) {i o : Nat} (hi : i < 32) (hne : a.page i ≠ 0) (ho : o < 4096)
    (b : Byte) : Pages s₀ { a with mem := byteStored a.mem (a.page i + o) b } where
  frame := h.frame
  inj := h.inj
  used := h.used
  rest := h.rest
  other x hx := by
    obtain ⟨f, hf, -⟩ := h.frame i hi hne
    have hout : x / 1024 * 4096 ≠ a.page i := fun heq => hx i hi hne heq.symm
    rw [← h.other x hx]
    exact Function.update_of_ne (by omega) _ _
  high := h.high

/-- Two places of the area are two bytes of memory. -/
theorem Pages.address_inj (h : Pages s₀ a) {q r : Nat} (hq : q / 4096 < 32) (hr : r / 4096 < 32)
    (hqp : a.page (q / 4096) ≠ 0) (hrp : a.page (r / 4096) ≠ 0)
    (heq : a.page (q / 4096) + q % 4096 = a.page (r / 4096) + r % 4096) : q = r := by
  obtain ⟨-, -, -, hq4⟩ := h.index hq hqp
  obtain ⟨-, -, -, hr4⟩ := h.index hr hrp
  have hpage : a.page (q / 4096) = a.page (r / 4096) := by omega
  have hsame := h.inj _ hq _ hr hpage hqp
  omega

/-- The byte below the others is stored. -/
theorem Room.store (h : Room s₀ a p bytes) (b : Byte) :
    Laid s₀ { a with mem := byteStored a.mem (a.page ((p - 1) / 4096) + (p - 1) % 4096) b }
      (p - 1) (b :: bytes) := by
  have hpos := h.pos
  have hsize := h.size
  have htop : areaTop = 131068 := by decide
  have hi : (p - 1) / 4096 < 32 := by omega
  have hne : a.page ((p - 1) / 4096) ≠ 0 := (h.there _ hi).mpr (Nat.le_refl _)
  refine ⟨h.toPages.store hi hne (Nat.mod_lt _ (by decide)) b, ?_, ?_, ?_⟩
  · rw [List.length_cons]
    omega
  · intro j hj
    rw [h.there j hj]
    omega
  · intro k hk
    show loadByte (byteStored a.mem _ b) (a.page ((p - 1 + k) / 4096) + (p - 1 + k) % 4096) = _
    rw [loadByte_byteStored]
    cases k with
    | zero => simp
    | succ k =>
      rw [List.length_cons] at hk
      have hq : p - 1 + (k + 1) = p + k := by omega
      have hqi : (p + k) / 4096 < 32 := by omega
      have hqne : a.page ((p + k) / 4096) ≠ 0 := (h.there _ hqi).mpr (by omega)
      rw [hq, if_neg]
      · exact h.holds k (by omega)
      · intro heq
        have := h.toPages.address_inj hqi hi hqne hne heq
        omega

/-- A free page is none of the area. -/
theorem Pages.fresh (h : Pages s₀ a) {f : Nat} (hf : 256 ≤ f) (hf0 : a.mem.memMap (f - 256) = 0) :
    (∀ j < 32, a.page j ≠ f * 4096) ∧ s₀.memMap (f - 256) = 0 := by
  have hback : (f - 256 + 256) * 4096 = f * 4096 := by rw [Nat.sub_add_cancel hf]
  have hnew : ∀ j < 32, a.page j ≠ f * 4096 := by
    intro j hj heq
    have hone := h.used j hj (f - 256) (heq.trans hback.symm)
    rw [hf0] at hone
    cases hone
  refine ⟨hnew, ?_⟩
  rw [← hf0]
  exact (h.rest _ fun j hj heq => hnew j hj (heq.trans hback)).symm

/-- A free page becomes `page[i]`. -/
theorem Pages.take (h : Pages s₀ a) {i : Nat} (hi : i < 32) (hmiss : a.page i = 0) {f : Nat}
    (hf : 256 ≤ f) (hf' : f < 4096) (hf0 : a.mem.memMap (f - 256) = 0) :
    Pages s₀ { a with mem := taken a.mem f, page := Function.update a.page i (f * 4096) } := by
  have hback : (f - 256 + 256) * 4096 = f * 4096 := by rw [Nat.sub_add_cancel hf]
  obtain ⟨hnew, hfree⟩ := h.fresh hf hf0
  have hpage : ∀ j, j ≠ i → Function.update a.page i (f * 4096) j = a.page j :=
    fun j hj => Function.update_of_ne hj _ _
  have hself : Function.update a.page i (f * 4096) i = f * 4096 := Function.update_self ..
  -- the new page is none of those the area has
  constructor
  case frame =>
    intro j hj hne
    by_cases hji : j = i
    · exact ⟨f, by rw [hji]; exact hself, hf, hf', hfree⟩
    · dsimp only at hne ⊢
      rw [hpage j hji] at hne ⊢
      exact h.frame j hj hne
  case inj =>
    intro j hj k hk heq hne
    dsimp only at heq hne
    by_cases hji : j = i <;> by_cases hki : k = i
    · rw [hji, hki]
    · rw [hji, hself, hpage k hki] at heq
      exact absurd heq.symm (hnew k hk)
    · rw [hki, hself, hpage j hji] at heq
      exact absurd heq (hnew j hj)
    · rw [hpage j hji, hpage k hki] at heq
      rw [hpage j hji] at hne
      exact h.inj j hj k hk heq hne
  case used =>
    intro j hj m hm
    dsimp only [taken] at hm ⊢
    by_cases hji : j = i
    · rw [hji, hself] at hm
      have hmf : m = f - 256 := by omega
      rw [hmf, Function.update_self]
    · rw [hpage j hji] at hm
      rw [Function.update_of_ne]
      · exact h.used j hj m hm
      · intro hmf
        rw [hmf] at hm
        exact hnew j hj (hm.trans hback)
  case rest =>
    intro m hm
    dsimp only [taken] at hm ⊢
    have hmf : m ≠ f - 256 := by
      intro hmf
      rw [hmf] at hm
      exact hm i hi (hself.trans hback.symm)
    rw [Function.update_of_ne hmf]
    refine h.rest m fun j hj => ?_
    by_cases hji : j = i
    · rw [hji, hmiss]
      omega
    · rw [← hpage j hji]
      exact hm j hj
  case other =>
    intro x hx
    dsimp only at hx ⊢
    have hxf : x / 1024 ≠ f := by
      intro hxf
      exact hx i hi (by rw [hself]; omega) (by rw [hself, hxf])
    rw [onlyFrame_taken f x hxf]
    refine h.other x fun j hj hne => ?_
    have hji : j ≠ i := by
      intro hji
      rw [hji] at hne
      exact hne hmiss
    rw [← hpage j hji] at hne ⊢
    exact hx j hj hne
  case high => exact h.high

/-- A page is got for the byte below. -/
theorem Laid.room (h : Laid s₀ a p bytes) (hpos : 0 < p) (hmiss : a.page ((p - 1) / 4096) = 0)
    {f : Nat} (hf : 256 ≤ f) (hf' : f < 4096) (hf0 : a.mem.memMap (f - 256) = 0) :
    Room s₀ { a with
      mem := taken a.mem f
      page := Function.update a.page ((p - 1) / 4096) (f * 4096) } p bytes := by
  have hsize := h.size
  have htop : areaTop = 131068 := by decide
  have hi : (p - 1) / 4096 < 32 := by omega
  have hpages := h.toPages.take hi hmiss hf hf' hf0
  have hthere := h.there
  generalize hidx : (p - 1) / 4096 = i at *
  have hpage : ∀ j, j ≠ i → Function.update a.page i (f * 4096) j = a.page j :=
    fun j hj => Function.update_of_ne hj _ _
  have hmiss' : ¬ (p < areaTop ∧ p / 4096 ≤ i) := fun hin => (hthere i hi).mpr hin hmiss
  refine ⟨hpages, hpos, hsize, fun j hj => ?_, fun k hk => ?_⟩
  · dsimp only
    by_cases hji : j = i
    · rw [hji, Function.update_self]
      omega
    · rw [hpage j hji, hthere j hj]
      omega
  · have hqi : (p + k) / 4096 < 32 := by omega
    have hqne : a.page ((p + k) / 4096) ≠ 0 := (hthere _ hqi).mpr ⟨by omega, by omega⟩
    have hji : (p + k) / 4096 ≠ i := by
      intro heq
      rw [heq] at hqne
      exact hqne hmiss
    obtain ⟨-, -, -, h4⟩ := h.toPages.index hqi hqne
    have hne := (h.toPages.fresh hf hf0).1 _ hqi
    rw [← h.holds k hk]
    unfold Area.byteAt loadByte
    dsimp only
    rw [hpage _ hji, onlyFrame_taken f _ (by omega)]

/-- The fs register does not matter for the area. -/
theorem Pages.setFs (h : Pages s₀ a) (g : Seg) : Pages s₀ { a with fs := g } :=
  ⟨h.frame, h.inj, h.used, h.rest, h.other, h.high⟩

theorem Laid.setFs (h : Laid s₀ a p bytes) (g : Seg) : Laid s₀ { a with fs := g } p bytes :=
  ⟨h.toPages.setFs g, h.size, h.there, h.holds⟩

theorem Room.setFs (h : Room s₀ a p bytes) (g : Seg) : Room s₀ { a with fs := g } p bytes :=
  ⟨h.toPages.setFs g, h.pos, h.size, h.there, h.holds⟩

/-- **`page[i]`** for the byte below the others. -/
theorem pageAt_spec (h : Laid s₀ a p bytes) (hpos : 0 < p) :
    wp (pageAt ((p - 1) / 4096)) (fun r a' => a'.fs = a.fs ∧
        ((r = 0 ∧ Pages s₀ a' ∧ freeCount s₀ < 32) ∨
          (r ≠ 0 ∧ r = a'.page ((p - 1) / 4096) ∧ Room s₀ a' p bytes)))
      (fun _ _ => False) a := by
  have hsize := h.size
  have htop : areaTop = 131068 := by decide
  have hi : (p - 1) / 4096 < 32 := by omega
  unfold pageAt
  rw [if_neg (show ¬ maxArgPages ≤ (p - 1) / 4096 by unfold maxArgPages; omega), wp_bind, wp_get,
    wp_ite]
  constructor
  · intro hne
    refine ⟨rfl, Or.inr ⟨hne, rfl, h.toPages, hpos, hsize, fun j hj => ?_, h.holds⟩⟩
    have hin := (h.there _ hi).mp hne
    rw [h.there j hj]
    omega
  · intro hmiss
    have hmiss : a.page ((p - 1) / 4096) = 0 := by simpa using hmiss
    rw [wp_bind, wp_ofMm]
    rcases getFreePage_eq (s := a.mem) with ⟨hgot, hnone⟩ | ⟨f, hf, hf', hf0, hgot⟩
    · rw [wp_of_ok hgot, wp_bind, wp_setPage, wp_pure]
      have hsame : Function.update a.page ((p - 1) / 4096) 0 = a.page := by
        rw [← hmiss, Function.update_eq_self]
      dsimp only
      rw [hsame]
      exact ⟨rfl, Or.inl ⟨rfl, h.toPages, h.toPages.scarce hnone hi hmiss⟩⟩
    · rw [wp_of_ok hgot, wp_bind, wp_setPage, wp_pure]
      refine ⟨rfl, Or.inr ⟨by omega, ?_, h.room hpos hmiss hf hf' hf0⟩⟩
      dsimp only
      rw [Function.update_self]

/-- What fs is while bytes are copied. -/
def during (fromKmem : Nat) (oldFs : Seg) : Seg := if fromKmem = 2 then .kernel else oldFs

theorem wp_back {fromKmem : Nat} {oldFs : Seg} (hfs : a.fs = during fromKmem oldFs)
    (Q : Unit → Area → Prop) (E : Stuck → Area → Prop) :
    wp (whenever (fromKmem = 2) (setFs oldFs)) Q E a ↔ Q () { a with fs := oldFs } := by
  rw [wp_whenever, wp_setFs]
  unfold during at hfs
  by_cases h2 : fromKmem = 2
  · rw [if_pos h2]
  · rw [if_neg h2] at hfs ⊢
    rw [← hfs]

theorem wp_forth {fromKmem : Nat} {oldFs : Seg} (hfs : a.fs = oldFs)
    (Q : Unit → Area → Prop) (E : Stuck → Area → Prop) :
    wp (whenever (fromKmem = 2) (setFs .kernel)) Q E a ↔
      Q () { a with fs := during fromKmem oldFs } := by
  rw [wp_whenever, wp_setFs]
  unfold during
  by_cases h2 : fromKmem = 2
  · rw [if_pos h2, if_pos h2]
  · rw [if_neg h2, if_neg h2, ← hfs]

theorem wp_putByte {v : Strings} (h : a.fs = v.text) (l : Loc) (b : Byte)
    (Q : Unit → Area → Prop) (E : Stuck → Area → Prop) :
    wp (putByte v l b) Q E a ↔
      Q () { a with mem := byteStored a.mem (l.pag + l.offset.toNat) b } := by
  unfold putByte
  rw [wp_bind, wp_reads h, wp_ofMm, wp_storeByte]

theorem sub_one_toNat {w : Word} (h : 0 < w.toNat) : (w - 1).toNat = w.toNat - 1 := by
  have := w.isLt
  rw [BitVec.toNat_sub]
  simp
  omega

/-- What becomes of bytes that are put below the others: they are there, or there were
less than 32 free pages, or there were 32 and the area was full. -/
def Puts (s₀ : Mem) (v : Strings) (oldFs : Seg) (p : Nat) (bytes new : List Byte)
    (x : Ar (Option Loc)) (a : Area) : Prop :=
  wp x (fun r a' => match r with
      | some l => new.length ≤ p ∧ Laid s₀ a' (p - new.length) (new ++ bytes) ∧
          l.At a' (p - new.length) ∧ a'.fs = v.text
      | none => Pages s₀ a' ∧ freeCount s₀ < 32 ∧ a'.fs = oldFs)
    (fun e _ => e = .outOfPage 0xFFFFF ∧ p < new.length ∧ 32 ≤ freeCount s₀) a

/-- **One byte.** -/
theorem copyByte_spec {v : Strings} {fromKmem : Nat} {oldFs : Seg} (h : Laid s₀ a p bytes)
    (hl : l.At a p) (hfs : a.fs = v.text) (htext : v.text = during fromKmem oldFs) (b : Byte) :
    Puts s₀ v oldFs p bytes [b] (copyByte v fromKmem oldFs l b) a := by
  have hsize := h.size
  have htop : areaTop = 131068 := by decide
  have hback : a.fs = during fromKmem oldFs := hfs.trans htext
  unfold Puts copyByte
  dsimp only
  rw [wp_ite]
  constructor
  · intro hoff
    have hstart : l.p.toNat = p := hl.pos
    rw [wp_bind, wp_back hback, wp_bind]
    by_cases hp : p = 0
    · -- `p` goes round
      subst hp
      have hround : l.p - 1 = 0xffffffff := by
        have : l.p = 0 := BitVec.eq_of_toNat_eq hstart
        rw [this]
        rfl
      rw [hround]
      exact ⟨rfl, by simp, h.full⟩
    · have hpos : 0 < p := by omega
      have hprev : (l.p - 1).toNat = p - 1 := by rw [sub_one_toNat (by omega), hstart]
      rw [hprev]
      refine wp_mono (pageAt_spec (h.setFs oldFs) hpos) ?_ (fun _ _ h => h.elim)
      intro pag a' ⟨hfs', hcases⟩
      rcases hcases with ⟨h0, hpages, hfew⟩ | ⟨hne, hpag, hroom⟩
      · rw [if_pos h0]
        exact ⟨hpages, hfew, hfs'⟩
      · rw [if_neg hne, wp_bind, wp_forth hfs', wp_bind, wp_putByte htext.symm, wp_pure]
        have hstored := (hroom.setFs (during fromKmem oldFs)).store b
        rw [hpag]
        refine ⟨hpos, hstored, ⟨hprev, Or.inr ⟨rfl, ?_, rfl⟩⟩, htext.symm⟩
        show p - 1 < areaTop
        omega
  · intro hoff
    -- still in the page of the byte before
    rcases hl.off with h0 | ⟨hmod, hlt, hpag⟩
    · omega
    have hstart := hl.pos
    have hprev : (l.p - 1).toNat = p - 1 := by rw [sub_one_toNat (by omega), hstart]
    have hidx : (p - 1) / 4096 = p / 4096 := by omega
    have hroom : Room s₀ a p bytes := by
      refine ⟨h.toPages, by omega, hsize, fun j hj => ?_, h.holds⟩
      rw [h.there j hj]
      omega
    have hto : (l.offset - 1).toNat = (p - 1) % 4096 := by omega
    have hstored := hroom.store b
    rw [wp_bind, wp_putByte hfs, wp_pure]
    dsimp only
    rw [hto, hpag, ← hidx]
    refine ⟨hroom.pos, hstored, ⟨hprev, Or.inr ⟨?_, ?_, ?_⟩⟩, hfs⟩
    · show l.offset - 1 = ((p - 1) % 4096 : Nat)
      omega
    · show p - 1 < areaTop
      omega
    · rfl

/-! ## One string, one call -/

/-- The bytes are copied from the last to the first. -/
theorem copyBytes_spec {v : Strings} {fromKmem : Nat} {oldFs : Seg}
    (htext : v.text = during fromKmem oldFs) (bs : List Byte) :
    ∀ {a : Area} {p : Nat} {bytes : List Byte} {l : Loc}, Laid s₀ a p bytes → l.At a p →
      a.fs = v.text → Puts s₀ v oldFs p bytes bs.reverse (copyBytes v fromKmem oldFs bs l) a := by
  induction bs with
  | nil =>
    intro a p bytes l h hl hfs
    exact ⟨Nat.zero_le _, h, hl, hfs⟩
  | cons b bs ih =>
    intro a p bytes l h hl hfs
    unfold Puts copyBytes
    rw [wp_bind]
    refine wp_mono (copyByte_spec h hl hfs htext b) ?_ ?_
    · intro r a1 h1
      cases r with
      | none => exact h1
      | some l1 =>
        obtain ⟨hpos, hlaid, hat, hfs1⟩ := h1
        have hone : [b].length = 1 := rfl
        rw [hone] at hpos hlaid hat
        refine wp_mono (ih hlaid hat hfs1) ?_ ?_
        · intro r a2 h2
          cases r with
          | none => exact h2
          | some l2 =>
            obtain ⟨hle, hlaid2, hat2, hfs2⟩ := h2
            rw [List.length_reverse] at hle hlaid2 hat2
            have hsub : p - 1 - bs.length = p - (b :: bs).reverse.length := by simp; omega
            have hbytes : bs.reverse ++ ([b] ++ bytes) = (b :: bs).reverse ++ bytes := by simp
            rw [hsub, hbytes] at hlaid2
            rw [hsub] at hat2
            refine ⟨by simp; omega, hlaid2, hat2, hfs2⟩
        · intro e a2 ⟨he, hlt, hmany⟩
          rw [List.length_reverse] at hlt
          exact ⟨he, by simp; omega, hmany⟩
    · intro e a1 ⟨he, hlt, hmany⟩
      rw [List.length_singleton] at hlt
      exact ⟨he, by simp; omega, hmany⟩

/-- A string with its terminator. -/
def withNul (s : List Byte) : List Byte := s ++ [0#8]

/-- The strings as they lie in memory. -/
def packed (strs : List (List Byte)) : List Byte := (strs.map withNul).flatten

/-- Where an array and its strings lie, for each way to call `copy_strings`. -/
structure Strings.Fits (v : Strings) (fromKmem : Nat) (oldFs : Seg) : Prop where
  array : v.array = if fromKmem = 0 then oldFs else .kernel
  text  : v.text = during fromKmem oldFs

/-- The pointer to a string is read from where the array lies. -/
theorem wp_pointer {v : Strings} {fromKmem : Nat} {oldFs : Seg} (hv : v.Fits fromKmem oldFs)
    (hk : fromKmem ≤ 2) (hfs : a.fs = v.text) {i : Nat} (hi : i < v.strs.length)
    (Q : List Byte → Area → Prop) (E : Stuck → Area → Prop) :
    wp (whenever (fromKmem = 1) (setFs .kernel)) (fun _ a1 =>
      wp (getString v i) (fun tmp a2 =>
        wp (whenever (fromKmem = 1) (setFs oldFs)) (fun _ a3 => Q tmp a3) E a2) E a1) E a ↔
      Q v.strs[i] a := by
  have harray := hv.array
  have htext := hfs.trans hv.text
  have hget : v.strs[i]? = some v.strs[i] := List.getElem?_eq_getElem hi
  unfold during at htext
  simp only [wp_whenever]
  by_cases h1 : fromKmem = 1
  · rw [if_neg (by omega)] at htext harray
    simp only [h1, if_true, wp_setFs]
    unfold getString
    rw [wp_bind, wp_reads harray.symm, hget]
    dsimp only
    rw [wp_pure, ← htext]
  · simp only [h1, if_false]
    have hsame : a.fs = v.array := by
      rw [htext, harray]
      by_cases h2 : fromKmem = 2
      · rw [if_pos h2, if_neg (by omega)]
      · rw [if_neg h2, if_pos (by omega)]
    unfold getString
    rw [wp_bind, wp_reads hsame, hget]
    exact Iff.rfl

/-- The strings are copied from the last to the first. -/
theorem copyLoop_spec {v : Strings} {fromKmem : Nat} {oldFs : Seg} (hv : v.Fits fromKmem oldFs)
    (hk : fromKmem ≤ 2) (argc : Nat) :
    ∀ {a : Area} {p : Nat} {bytes : List Byte} {l : Loc}, argc ≤ v.strs.length →
      Laid s₀ a p bytes → l.At a p → a.fs = v.text →
      Puts s₀ v oldFs p bytes (packed (v.strs.take argc)) (copyLoop v fromKmem oldFs argc l) a := by
  induction argc with
  | zero =>
    intro a p bytes l _ h hl hfs
    exact ⟨Nat.zero_le _, h, hl, hfs⟩
  | succ argc ih =>
    intro a p bytes l hargc h hl hfs
    have hi : argc < v.strs.length := hargc
    have hpacked : packed (v.strs.take (argc + 1)) =
        packed (v.strs.take argc) ++ withNul v.strs[argc] := by
      unfold packed
      rw [List.take_succ_eq_append_getElem hi, List.map_append, List.flatten_append]
      simp
    unfold Puts copyLoop
    rw [wp_bind]
    simp only [wp_bind]
    rw [wp_pointer hv hk hfs hi, wp_reads hfs, if_neg (Nat.not_lt_zero _), wp_bind]
    have hstring := copyBytes_spec hv.text (v.strs[argc] ++ [0#8]).reverse h hl hfs
    rw [List.reverse_reverse] at hstring
    refine wp_mono hstring ?_ ?_
    · intro r a1 h1
      cases r with
      | none => exact h1
      | some l1 =>
        obtain ⟨hle, hlaid, hat, hfs1⟩ := h1
        refine wp_mono (ih (by omega) hlaid hat hfs1) ?_ ?_
        · intro r a2 h2
          cases r with
          | none => exact h2
          | some l2 =>
            obtain ⟨hle2, hlaid2, hat2, hfs2⟩ := h2
            have hlen : (packed (v.strs.take (argc + 1))).length =
                (packed (v.strs.take argc)).length + (v.strs[argc] ++ [0#8]).length := by
              rw [hpacked, List.length_append]
              rfl
            rw [← List.append_assoc] at hlaid2
            rw [Nat.sub_sub, Nat.add_comm] at hlaid2 hat2
            dsimp only
            rw [hlen, hpacked]
            exact ⟨by omega, hlaid2, hat2, hfs2⟩
        · rintro e a2 ⟨he, hlt, hmany⟩
          refine ⟨he, ?_, hmany⟩
          rw [hpacked, List.length_append]
          have : (withNul v.strs[argc]).length = (v.strs[argc] ++ [0#8]).length := rfl
          omega
    · rintro e a1 ⟨he, hlt, hmany⟩
      refine ⟨he, ?_, hmany⟩
      rw [hpacked, List.length_append]
      have : (withNul v.strs[argc]).length = (v.strs[argc] ++ [0#8]).length := rfl
      omega

/-! ## The calls one after the other -/

/-- What is left of the area after a call that copies `t` bytes: nothing once it was
full at the end of a call, and `none` when a call goes on in a full area. -/
def room : Option Nat → Nat → Option Nat
  | none, _ => none
  | some p, t => if p = 0 then some 0 else if p < t then none else some (p - t)

/-- Between the calls: `left` is what is left of the area, as long as there are pages. -/
structure Status (s₀ : Mem) (a : Area) (p : Word) (left : Option Nat) (bytes : List Byte) : Prop where
  pages  : Pages s₀ a
  many   : 32 ≤ freeCount s₀ → left = some p.toNat
  filled : p ≠ 0 → left = some p.toNat ∧ Laid s₀ a p.toNat bytes

/-- **A call of `copy_strings`.** It only stops when the area was full in the middle of it,
and then not without an index that is out of `page`. -/
theorem copyStrings_spec {v : Strings} {fromKmem : Nat} {p : Word} {left : Option Nat}
    (h : Status s₀ a p left bytes) (hv : v.Fits fromKmem a.fs) (hk : fromKmem ≤ 2) {argc : Int}
    (hargc : argc.toNat ≤ v.strs.length) :
    wp (copyStrings argc v p fromKmem) (fun r a' => a'.fs = a.fs ∧ (r ≠ 0 → p ≠ 0) ∧
        Status s₀ a' r (room left (packed (v.strs.take argc.toNat)).length)
          (packed (v.strs.take argc.toNat) ++ bytes))
      (fun e _ => e = .outOfPage 0xFFFFF ∧ 32 ≤ freeCount s₀ ∧
        room left (packed (v.strs.take argc.toNat)).length = none) a := by
  generalize hnew : packed (v.strs.take argc.toNat) = new
  unfold copyStrings
  rw [wp_ite]
  constructor
  · intro h0
    subst h0
    refine ⟨rfl, id, h.pages, fun hmany => ?_, fun hne => absurd rfl hne⟩
    rw [h.many hmany]
    rfl
  · intro h0
    obtain ⟨hleft, hlaid⟩ := h.filled h0
    have hp0 : p.toNat ≠ 0 := fun hz => h0 (BitVec.eq_of_toNat_eq hz)
    have hroom : room left new.length = if p.toNat < new.length then none
        else some (p.toNat - new.length) := by
      rw [hleft]
      exact if_neg hp0
    rw [wp_bind, wp_get, wp_bind, wp_forth rfl, wp_bind]
    have hloop := copyLoop_spec hv hk argc.toNat (l := ⟨p, 0, 0⟩) hargc
      (hlaid.setFs (during fromKmem a.fs)) ⟨rfl, Or.inl rfl⟩ hv.text.symm
    rw [hnew] at hloop
    refine wp_mono hloop ?_ ?_
    · intro r a1 h1
      cases r with
      | none =>
        obtain ⟨hpages, hfew, hfs⟩ := h1
        exact ⟨hfs, fun hne => absurd rfl hne, hpages, fun hmany => by omega, fun hne => absurd rfl hne⟩
      | some l =>
        obtain ⟨hle, hlaid1, hat, hfs⟩ := h1
        dsimp only
        rw [wp_bind, wp_back (hfs.trans hv.text), wp_pure, hroom, if_neg (by omega), ← hat.pos]
        rw [← hat.pos] at hlaid1
        exact ⟨rfl, fun _ => h0, hlaid1.toPages.setFs _, fun _ => rfl, fun _ => ⟨rfl, hlaid1.setFs _⟩⟩
    · intro e a1 ⟨he, hlt, hmany⟩
      rw [hroom, if_pos hlt]
      exact ⟨he, hmany, rfl⟩

/-! ## The pages given back -/

/-- Free pages lie below the end of memory. -/
def FreeBelow (s : Mem) : Prop :=
  ∀ m < pagingPages, s.memMap m = 0 → 4096 * (m + 256) < s.highMemory

/-- The accounts say so. -/
theorem freeBelow_of_acc {lo hi : Nat} {s : Mem} {held : Nat → Nat} (A : Acc lo hi s held) :
    FreeBelow s := by
  intro m hm h0
  have hpp : pagingPages = 3840 := by decide
  have hhigh := A.high
  have hmain : m + 256 < hi := by
    by_contra hout
    exact A.other (m + 256) (by omega) (by omega) (by omega) (by simpa using h0)
  omega

/-- Nothing in memory has changed but what is in free pages. -/
structure SameUsed (s₀ s : Mem) : Prop where
  count : s.memMap = s₀.memMap
  words : ∀ x, x / 1024 < 256 ∨ s₀.memMap (x / 1024 - 256) ≠ 0 → s.phys x = s₀.phys x
  high  : s.highMemory = s₀.highMemory

theorem SameUsed.refl (s : Mem) : SameUsed s s := ⟨rfl, fun _ _ => rfl, rfl⟩

/-- Pages `i` and up are still to be given back. -/
structure Freed (s₀ : Mem) (a : Area) (i : Nat) (b : Area) : Prop where
  page : b.page = a.page
  fs   : b.fs = a.fs
  phys : b.mem.phys = a.mem.phys
  high : b.mem.highMemory = s₀.highMemory
  used : ∀ j < 32, i ≤ j → ∀ m, a.page j = (m + 256) * 4096 → b.mem.memMap m = 1
  rest : ∀ m, (∀ j < 32, i ≤ j → a.page j ≠ (m + 256) * 4096) → b.mem.memMap m = s₀.memMap m

theorem freed_step (h : Pages s₀ a) (hbelow : FreeBelow s₀) {i : Nat} {b : Area} (hi : i < 32)
    (hb : Freed s₀ a i b) :
    wp (do let b ← get; ofMm (freePage (b.page i)) : Ar Unit) (fun _ => Freed s₀ a (i + 1))
      (fun _ _ => False) b := by
  have hpage : b.page i = a.page i := congrFun hb.page i
  rw [wp_bind, wp_get, wp_ofMm, hpage]
  by_cases h0 : a.page i = 0
  · have hlow := freePage_low (s := b.mem) (f := 0) (by omega)
    rw [Nat.zero_mul] at hlow
    rw [h0, wp_of_ok hlow]
    refine ⟨hb.page, hb.fs, hb.phys, hb.high, fun j hj hij => hb.used j hj (by omega), fun m hm => ?_⟩
    refine hb.rest m fun j hj hij => ?_
    by_cases hji : j = i
    · rw [hji, h0]
      omega
    · exact hm j hj (by omega)
  · obtain ⟨f, hf, h256, h4096, hfree⟩ := h.frame i hi h0
    have hback : f * 4096 = (f - 256 + 256) * 4096 := by rw [Nat.sub_add_cancel h256]
    have hone : b.mem.memMap (f - 256) = 1 := hb.used i hi (Nat.le_refl _) (f - 256) (hf.trans hback)
    have hpp : pagingPages = 3840 := by decide
    have hlim : f * 4096 < s₀.highMemory := by
      have h := hbelow (f - 256) (by omega) hfree
      rw [Nat.sub_add_cancel h256, Nat.mul_comm] at h
      exact h
    have hmain : freePage (f * 4096) b.mem = .ok () { b.mem with
        memMap := Function.update b.mem.memMap (f - 256) 0 } := by
      rw [freePage_main h256 (by rw [hb.high]; exact hlim) (by omega) (by omega), hone]
    rw [hf, wp_of_ok hmain]
    refine ⟨hb.page, hb.fs, hb.phys, hb.high, fun j hj hij m hm => ?_, fun m hm => ?_⟩
    · dsimp only
      rw [Function.update_of_ne]
      · exact hb.used j hj (by omega) m hm
      · intro hmf
        rw [hmf, ← hback, ← hf] at hm
        have := h.inj i hi j hj hm.symm h0
        omega
    · dsimp only
      by_cases hmf : m = f - 256
      · rw [hmf, Function.update_self, hfree]
      · rw [Function.update_of_ne hmf]
        refine hb.rest m fun j hj hij => ?_
        by_cases hji : j = i
        · rw [hji, hf]
          omega
        · exact hm j hj (by omega)

/-- **The loop of `exec_error1`** gives every page back, once. -/
theorem freePages_spec (h : Pages s₀ a) (hbelow : FreeBelow s₀) :
    wp freePages (fun _ b => SameUsed s₀ b.mem ∧ b.fs = a.fs) (fun _ _ => False) a := by
  have hstart : Freed s₀ a 0 a :=
    ⟨rfl, rfl, rfl, h.high, fun j hj _ => h.used j hj, fun m hm => h.rest m fun j hj => hm j hj (Nat.zero_le _)⟩
  have hloop : wp freePages (fun _ => Freed s₀ a maxArgPages) (fun _ _ => False) a :=
    wp_upTo (fun i b hi hb => freed_step h hbelow hi hb) hstart
  refine wp_mono hloop ?_ (fun _ _ h => h)
  intro _ b hb
  refine ⟨⟨?_, ?_, hb.high⟩, hb.fs⟩
  · funext m
    exact hb.rest m fun j hj hij => absurd hij (by unfold maxArgPages; omega)
  · intro x hx
    rw [hb.phys]
    refine h.other x fun i hi hne heq => ?_
    obtain ⟨f, hf, h256, -, hfree⟩ := h.frame i hi hne
    have hxf : x / 1024 = f := by omega
    rw [hxf] at hx
    omega

end Linux011.Fs.ArgPages
