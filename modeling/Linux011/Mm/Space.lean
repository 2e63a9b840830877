import Linux011.Lib.RefCount
import Mathlib.Tactic.Common
import Mathlib.Order.Interval.Finset.Nat

/-!
# Memory manager — the accounting discipline

What `mem_map` is for, without bits and addresses. A `Space` records which
page-table frame each page-directory entry names (`tbl`), which frame each
page-table entry maps and whether it may be written (`map`), the use counts
(`cnt`) and the frames the kernel itself holds (`held`). Only the entries of
the task slots 1..63 count: page-directory entries 16..1023.

`Space.Inv lo hi` is the discipline for main memory, the frames `lo ≤ f < hi`:
every count is exact, a frame is a page table, a kernel page or user pages and
never two of these, a writable entry is the only use of its frame, and all
entries that map one frame sit at the same offset of their slots.

Main results: each of the eight primitive changes that the routines of
`Mm/Memory.lean` are made of keeps the discipline (`inv_hold`, `inv_unhold`,
`inv_heldToTable`, `inv_tableToHeld`, `inv_mapHeld`, `inv_unmap`, `inv_share`,
`inv_setWritable`), and a count never exceeds 64 (`cnt_le`).
-/

namespace Linux011.Mm

open Linux011.Lib

/-- Use of memory by the task slots and the kernel. -/
structure Space where
  tbl : Nat → Option Nat
  map : Nat × Nat → Option (Nat × Bool)
  cnt : Nat → Nat
  held : Nat → Nat

/-- The page-directory entries of the task slots 1..63. -/
@[irreducible] def dirs : Finset Nat := Finset.Ico 16 1024

/-- Their page-table entries. -/
@[irreducible] def cells : Finset (Nat × Nat) := dirs ×ˢ Finset.range 1024

theorem mem_dirs {d : Nat} : d ∈ dirs ↔ 16 ≤ d ∧ d < 1024 := by
  unfold dirs
  exact Finset.mem_Ico

theorem mem_cells {x : Nat × Nat} : x ∈ cells ↔ x.1 ∈ dirs ∧ x.2 < 1024 := by
  unfold cells
  rw [Finset.mem_product, Finset.mem_range]

namespace Space

/-- The page-table entries that map `f`. -/
def mapRefs (a : Space) (f : Nat) : Nat := refs cells (fun x => (a.map x).map Prod.fst) f

/-- The page-directory entries whose page table is `f`. -/
def tblRefs (a : Space) (f : Nat) : Nat := refs dirs a.tbl f

/-- The accounting discipline for main memory `lo ≤ f < hi`. -/
structure Inv (lo hi : Nat) (a : Space) : Prop where
  count    : ∀ f, lo ≤ f → f < hi → a.cnt f = a.mapRefs f + a.tblRefs f + a.held f
  sole     : ∀ f, lo ≤ f → f < hi → a.tblRefs f + a.held f ≤ 1
  apart    : ∀ f, lo ≤ f → f < hi → 0 < a.mapRefs f → a.tblRefs f + a.held f = 0
  writable : ∀ x ∈ cells, ∀ f, a.map x = some (f, true) → lo ≤ f ∧ f < hi ∧ a.cnt f = 1
  tblMain  : ∀ d ∈ dirs, ∀ f, a.tbl d = some f → lo ≤ f ∧ f < hi
  mapMain  : ∀ x ∈ cells, ∀ f w, a.map x = some (f, w) → f < 256 ∨ lo ≤ f ∧ f < hi
  mapTbl   : ∀ x ∈ cells, a.tbl x.1 = none → a.map x = none
  heldMain : ∀ f, 0 < a.held f → lo ≤ f ∧ f < hi
  place    : ∀ x ∈ cells, ∀ y ∈ cells, ∀ f w w', 256 ≤ f → a.map x = some (f, w) →
    a.map y = some (f, w') → x.1 % 16 = y.1 % 16 ∧ x.2 = y.2

variable {lo hi : Nat} {a : Space}

/-! ## Reference counts of the three kinds -/

theorem mapRefs_update {x : Nat × Nat} (hx : x ∈ cells) (v : Option (Nat × Bool)) (f : Nat)
    (t : Nat → Option Nat) (c h : Nat → Nat) :
    mapRefs ⟨t, Function.update a.map x v, c, h⟩ f +
        (if (a.map x).map Prod.fst = some f then 1 else 0) =
      a.mapRefs f + (if v.map Prod.fst = some f then 1 else 0) := by
  have hcomp : (fun y => (Function.update a.map x v y).map Prod.fst) =
      Function.update (fun y => (a.map y).map Prod.fst) x (v.map Prod.fst) := by
    funext y
    by_cases hy : y = x
    · subst hy
      rw [Function.update_self, Function.update_self]
    · rw [Function.update_of_ne hy, Function.update_of_ne hy]
  unfold mapRefs
  rw [hcomp]
  exact refs_update hx _ f

theorem tblRefs_update {d : Nat} (hd : d ∈ dirs) (v : Option Nat) (f : Nat)
    (m : Nat × Nat → Option (Nat × Bool)) (c h : Nat → Nat) :
    tblRefs ⟨Function.update a.tbl d v, m, c, h⟩ f + (if a.tbl d = some f then 1 else 0) =
      a.tblRefs f + (if v = some f then 1 else 0) :=
  refs_update hd v f

theorem mapRefs_pos {x : Nat × Nat} (hx : x ∈ cells) {f : Nat} {w : Bool}
    (h : a.map x = some (f, w)) : 0 < a.mapRefs f :=
  refs_pos_iff.mpr ⟨x, hx, by rw [h]; rfl⟩

theorem tblRefs_pos {d : Nat} (hd : d ∈ dirs) {f : Nat} (h : a.tbl d = some f) :
    0 < a.tblRefs f :=
  refs_pos_iff.mpr ⟨d, hd, h⟩

/-- A frame with count 0 is used by nobody. -/
theorem Inv.unused (I : Inv lo hi a) {f : Nat} (hlo : lo ≤ f) (hhi : f < hi) (h0 : a.cnt f = 0) :
    a.mapRefs f = 0 ∧ a.tblRefs f = 0 ∧ a.held f = 0 := by
  have := I.count f hlo hhi
  omega

/-- Two page directory entries never share a page table. -/
theorem Inv.tbl_inj (I : Inv lo hi a) {d e : Nat} (hd : d ∈ dirs) (he : e ∈ dirs) {f : Nat}
    (h : a.tbl d = some f) (h' : a.tbl e = some f) : d = e := by
  by_contra hne
  have hf := I.tblMain d hd f h
  have hsole := I.sole f hf.1 hf.2
  -- clearing `d` drops one reference and `e` still refers
  have hup := tblRefs_update (a := a) hd none f a.map a.cnt a.held
  rw [if_pos h, if_neg (by simp)] at hup
  have hpos : 0 < tblRefs ⟨Function.update a.tbl d none, a.map, a.cnt, a.held⟩ f := by
    refine tblRefs_pos he ?_
    show Function.update a.tbl d none e = some f
    rw [Function.update_of_ne (Ne.symm hne)]
    exact h'
  omega

/-- A page table is not mapped by any task. -/
theorem Inv.tbl_not_mapped (I : Inv lo hi a) {d : Nat} (hd : d ∈ dirs) {f : Nat}
    (h : a.tbl d = some f) {x : Nat × Nat} (hx : x ∈ cells) {w : Bool} :
    a.map x ≠ some (f, w) := by
  intro hm
  have hf := I.tblMain d hd f h
  have := I.apart f hf.1 hf.2 (mapRefs_pos hx hm)
  have := tblRefs_pos hd h
  omega

/-- An entry that may be written is the only use of its frame. -/
theorem Inv.writable_sole (I : Inv lo hi a) {x y : Nat × Nat} (hx : x ∈ cells) (hy : y ∈ cells)
    {f : Nat} {w : Bool} (h : a.map x = some (f, true)) (h' : a.map y = some (f, w)) : x = y := by
  by_contra hne
  obtain ⟨hlo, hhi, hc⟩ := I.writable x hx f h
  have hcount := I.count f hlo hhi
  have hup := mapRefs_update (a := a) hx none f a.tbl a.cnt a.held
  simp only [h, Option.map_some, Option.map_none, reduceCtorEq, if_true, if_false] at hup
  have hpos : 0 < mapRefs ⟨a.tbl, Function.update a.map x none, a.cnt, a.held⟩ f := by
    refine mapRefs_pos hy (w := w) ?_
    show Function.update a.map x none y = some (f, w)
    rw [Function.update_of_ne (Ne.symm hne)]
    exact h'
  omega

/-- **No count exceeds 64**: a frame is mapped at most once in each of the 63
slots. -/
theorem Inv.cnt_le (hlow : 256 ≤ lo) (I : Inv lo hi a) {f : Nat} (hlo : lo ≤ f) (hhi : f < hi) :
    a.cnt f ≤ 64 := by
  have hmap : a.mapRefs f ≤ (Finset.Ico 1 64).card := by
    refine refs_le_card (fun x => x.1 / 16) ?_ ?_
    · intro x hx _
      have hd := mem_dirs.mp (mem_cells.mp hx).1
      exact Finset.mem_Ico.mpr (by omega)
    · intro x hx y hy hfx hfy hxy
      obtain ⟨⟨_, w⟩, hmx, rfl⟩ := Option.map_eq_some_iff.mp hfx
      obtain ⟨⟨_, w'⟩, hmy, he⟩ := Option.map_eq_some_iff.mp hfy
      cases he
      obtain ⟨h1, h2⟩ := I.place x hx y hy _ w w' (by omega) hmx hmy
      exact Prod.ext (by omega) h2
  have hcard : (Finset.Ico 1 64).card = 63 := by rw [Nat.card_Ico]
  have := I.count f hlo hhi
  have := I.sole f hlo hhi
  omega

/-! ## The primitive changes -/

/-- The kernel takes a free frame. -/
def hold (a : Space) (f : Nat) : Space :=
  { a with cnt := Function.update a.cnt f 1, held := Function.update a.held f 1 }

/-- The kernel gives a frame back. -/
def unhold (a : Space) (f : Nat) : Space :=
  { a with cnt := Function.update a.cnt f 0, held := Function.update a.held f 0 }

/-- A held frame becomes the page table of entry `d`. -/
def heldToTable (a : Space) (d f : Nat) : Space :=
  { a with tbl := Function.update a.tbl d (some f), held := Function.update a.held f 0 }

/-- The empty page table of entry `d` becomes a held frame. -/
def tableToHeld (a : Space) (d f : Nat) : Space :=
  { a with tbl := Function.update a.tbl d none, held := Function.update a.held f 1 }

/-- A held frame becomes the writable page of cell `x`. -/
def mapHeld (a : Space) (x : Nat × Nat) (f : Nat) : Space :=
  { a with map := Function.update a.map x (some (f, true)), held := Function.update a.held f 0 }

/-- Cell `x` gives up frame `f`; frames below 1 MB are not counted. -/
def unmap (a : Space) (x : Nat × Nat) (f : Nat) : Space :=
  { a with
    map := Function.update a.map x none
    cnt := if 256 ≤ f then Function.update a.cnt f (a.cnt f - 1) else a.cnt }

/-- Cell `y` maps the counted frame `f` of cell `x` too, both read-only. -/
def share (a : Space) (x y : Nat × Nat) (f : Nat) : Space :=
  { a with
    map := Function.update (Function.update a.map y (some (f, false))) x (some (f, false))
    cnt := Function.update a.cnt f (a.cnt f + 1) }

/-- Cell `y` maps the uncounted frame `f`, read-only. -/
def shareLow (a : Space) (y : Nat × Nat) (f : Nat) : Space :=
  { a with map := Function.update a.map y (some (f, false)) }

/-- Cell `x` may write its frame `f`. -/
def setWritable (a : Space) (x : Nat × Nat) (f : Nat) : Space :=
  { a with map := Function.update a.map x (some (f, true)) }

/-! ## The primitive changes keep the discipline -/

theorem inv_hold (I : Inv lo hi a) {f : Nat} (hlo : lo ≤ f) (hhi : f < hi) (h0 : a.cnt f = 0) :
    Inv lo hi (a.hold f) := by
  obtain ⟨hm, ht, hh⟩ := I.unused hlo hhi h0
  constructor
  · intro g hg hg'
    show Function.update a.cnt f 1 g = a.mapRefs g + a.tblRefs g + Function.update a.held f 1 g
    have := I.count g hg hg'
    simp only [Function.update_apply]
    split
    · subst g; omega
    · omega
  · intro g hg hg'
    show a.tblRefs g + Function.update a.held f 1 g ≤ 1
    have := I.sole g hg hg'
    simp only [Function.update_apply]
    split
    · subst g; omega
    · omega
  · intro g hg hg' hpos
    show a.tblRefs g + Function.update a.held f 1 g = 0
    have hpos' : 0 < a.mapRefs g := hpos
    have := I.apart g hg hg' hpos'
    rw [Function.update_of_ne (by rintro rfl; omega)]
    exact this
  · intro x hx g hmap
    obtain ⟨h1, h2, h3⟩ := I.writable x hx g hmap
    refine ⟨h1, h2, ?_⟩
    show Function.update a.cnt f 1 g = 1
    simp only [Function.update_apply]
    split
    · rfl
    · exact h3
  · exact I.tblMain
  · exact I.mapMain
  · exact I.mapTbl
  · intro g hg
    have hg' : 0 < Function.update a.held f 1 g := hg
    simp only [Function.update_apply] at hg'
    split at hg'
    · subst g; exact ⟨hlo, hhi⟩
    · exact I.heldMain g hg'
  · exact I.place

/-- The facts about a held frame: it is used for nothing else. -/
theorem Inv.of_held (I : Inv lo hi a) {f : Nat} (hh : 0 < a.held f) :
    lo ≤ f ∧ f < hi ∧ a.held f = 1 ∧ a.tblRefs f = 0 ∧ a.mapRefs f = 0 ∧ a.cnt f = 1 := by
  obtain ⟨hlo, hhi⟩ := I.heldMain f hh
  have h1 := I.count f hlo hhi
  have h2 := I.sole f hlo hhi
  have h3 := I.apart f hlo hhi
  have h4 : a.mapRefs f = 0 := by
    by_contra hne
    have := h3 (by omega)
    omega
  exact ⟨hlo, hhi, by omega, by omega, h4, by omega⟩

theorem inv_unhold (I : Inv lo hi a) {f : Nat} (hh : 0 < a.held f) : Inv lo hi (a.unhold f) := by
  obtain ⟨hlo, hhi, hh1, ht, hm, hc⟩ := I.of_held hh
  constructor
  · intro g hg hg'
    show Function.update a.cnt f 0 g = a.mapRefs g + a.tblRefs g + Function.update a.held f 0 g
    have := I.count g hg hg'
    simp only [Function.update_apply]
    split
    · subst g; omega
    · omega
  · intro g hg hg'
    show a.tblRefs g + Function.update a.held f 0 g ≤ 1
    have := I.sole g hg hg'
    simp only [Function.update_apply]
    split <;> omega
  · intro g hg hg' hpos
    show a.tblRefs g + Function.update a.held f 0 g = 0
    have := I.apart g hg hg' hpos
    simp only [Function.update_apply]
    split <;> omega
  · intro x hx g hmap
    obtain ⟨h1, h2, h3⟩ := I.writable x hx g hmap
    refine ⟨h1, h2, ?_⟩
    have hpos := mapRefs_pos hx hmap
    show Function.update a.cnt f 0 g = 1
    rw [Function.update_of_ne (by rintro rfl; exact absurd hm (Nat.pos_iff_ne_zero.mp hpos))]
    exact h3
  · exact I.tblMain
  · exact I.mapMain
  · exact I.mapTbl
  · intro g hg
    have hg' : 0 < Function.update a.held f 0 g := hg
    simp only [Function.update_apply] at hg'
    split at hg'
    · omega
    · exact I.heldMain g hg'
  · exact I.place

theorem inv_heldToTable (I : Inv lo hi a) {d f : Nat} (hd : d ∈ dirs) (hn : a.tbl d = none)
    (hh : 0 < a.held f) : Inv lo hi (a.heldToTable d f) := by
  obtain ⟨hlo, hhi, hh1, ht, hm, hc⟩ := I.of_held hh
  have hup : ∀ g, (a.heldToTable d f).tblRefs g = a.tblRefs g + if f = g then 1 else 0 := by
    intro g
    have h := tblRefs_update (a := a) hd (some f) g a.map a.cnt (Function.update a.held f 0)
    simp only [hn, reduceCtorEq, if_false, Nat.add_zero, Option.some.injEq] at h
    exact h
  constructor
  · intro g hg hg'
    show a.cnt g = a.mapRefs g + (a.heldToTable d f).tblRefs g + Function.update a.held f 0 g
    have := I.count g hg hg'
    rw [hup, Function.update_apply]
    by_cases hgf : g = f
    · subst hgf; simp; omega
    · rw [if_neg hgf, if_neg (Ne.symm hgf)]; omega
  · intro g hg hg'
    show (a.heldToTable d f).tblRefs g + Function.update a.held f 0 g ≤ 1
    have := I.sole g hg hg'
    rw [hup, Function.update_apply]
    by_cases hgf : g = f
    · subst hgf; simp; omega
    · rw [if_neg hgf, if_neg (Ne.symm hgf)]; omega
  · intro g hg hg' hpos
    show (a.heldToTable d f).tblRefs g + Function.update a.held f 0 g = 0
    have hpos' : 0 < a.mapRefs g := hpos
    have := I.apart g hg hg' hpos'
    have hgf : g ≠ f := by
      rintro rfl
      omega
    rw [hup, Function.update_of_ne hgf, if_neg (Ne.symm hgf)]
    omega
  · exact I.writable
  · intro e he g hg
    have hg' : Function.update a.tbl d (some f) e = some g := hg
    rw [Function.update_apply] at hg'
    split at hg'
    · cases hg'; exact ⟨hlo, hhi⟩
    · exact I.tblMain e he g hg'
  · exact I.mapMain
  · intro x hx hx'
    have hx'' : Function.update a.tbl d (some f) x.1 = none := hx'
    rw [Function.update_apply] at hx''
    split at hx''
    · cases hx''
    · exact I.mapTbl x hx hx''
  · intro g hg
    have hg' : 0 < Function.update a.held f 0 g := hg
    rw [Function.update_apply] at hg'
    split at hg'
    · omega
    · exact I.heldMain g hg'
  · exact I.place

/-- The facts about a page table: it is used for nothing else. -/
theorem Inv.of_tbl (I : Inv lo hi a) {d f : Nat} (hd : d ∈ dirs) (ht : a.tbl d = some f) :
    lo ≤ f ∧ f < hi ∧ a.held f = 0 ∧ a.tblRefs f = 1 ∧ a.mapRefs f = 0 ∧ a.cnt f = 1 := by
  obtain ⟨hlo, hhi⟩ := I.tblMain d hd f ht
  have hpos := tblRefs_pos hd ht
  have h1 := I.count f hlo hhi
  have h2 := I.sole f hlo hhi
  have h4 : a.mapRefs f = 0 := by
    by_contra hne
    have := I.apart f hlo hhi (by omega)
    omega
  exact ⟨hlo, hhi, by omega, by omega, h4, by omega⟩

theorem inv_tableToHeld (I : Inv lo hi a) {d f : Nat} (hd : d ∈ dirs) (ht : a.tbl d = some f)
    (hempty : ∀ j < 1024, a.map (d, j) = none) : Inv lo hi (a.tableToHeld d f) := by
  obtain ⟨hlo, hhi, hh, htr, hm, hc⟩ := I.of_tbl hd ht
  have hup : ∀ g, (a.tableToHeld d f).tblRefs g + (if f = g then 1 else 0) = a.tblRefs g := by
    intro g
    have h := tblRefs_update (a := a) hd none g a.map a.cnt (Function.update a.held f 1)
    simp only [ht, reduceCtorEq, if_false, Nat.add_zero, Option.some.injEq] at h
    exact h
  constructor
  · intro g hg hg'
    show a.cnt g = a.mapRefs g + (a.tableToHeld d f).tblRefs g + Function.update a.held f 1 g
    have := I.count g hg hg'
    have hu := hup g
    rw [Function.update_apply]
    by_cases hgf : g = f
    · subst hgf; simp at hu ⊢; omega
    · rw [if_neg (Ne.symm hgf)] at hu
      rw [if_neg hgf]; omega
  · intro g hg hg'
    show (a.tableToHeld d f).tblRefs g + Function.update a.held f 1 g ≤ 1
    have := I.sole g hg hg'
    have hu := hup g
    rw [Function.update_apply]
    by_cases hgf : g = f
    · subst hgf; simp at hu ⊢; omega
    · rw [if_neg (Ne.symm hgf)] at hu
      rw [if_neg hgf]; omega
  · intro g hg hg' hpos
    show (a.tableToHeld d f).tblRefs g + Function.update a.held f 1 g = 0
    have hpos' : 0 < a.mapRefs g := hpos
    have := I.apart g hg hg' hpos'
    have hu := hup g
    have hgf : g ≠ f := by
      rintro rfl
      omega
    rw [Function.update_of_ne hgf]
    omega
  · exact I.writable
  · intro e he g hg
    have hg' : Function.update a.tbl d none e = some g := hg
    rw [Function.update_apply] at hg'
    split at hg'
    · cases hg'
    · exact I.tblMain e he g hg'
  · exact I.mapMain
  · intro x hx hx'
    have hx'' : Function.update a.tbl d none x.1 = none := hx'
    show a.map x = none
    rw [Function.update_apply] at hx''
    split at hx''
    · next hxd =>
      have := hempty x.2 (mem_cells.mp hx).2
      rw [← hxd] at this
      exact this
    · exact I.mapTbl x hx hx''
  · intro g hg
    have hg' : 0 < Function.update a.held f 1 g := hg
    rw [Function.update_apply] at hg'
    split at hg'
    · subst g; exact ⟨hlo, hhi⟩
    · exact I.heldMain g hg'
  · exact I.place

theorem inv_mapHeld (I : Inv lo hi a) {x : Nat × Nat} {f : Nat} (hx : x ∈ cells)
    (hn : a.map x = none) (ht : a.tbl x.1 ≠ none) (hh : 0 < a.held f) :
    Inv lo hi (a.mapHeld x f) := by
  obtain ⟨hlo, hhi, hh1, htr, hm, hc⟩ := I.of_held hh
  have hup : ∀ g, (a.mapHeld x f).mapRefs g = a.mapRefs g + if f = g then 1 else 0 := by
    intro g
    have h := mapRefs_update (a := a) hx (some (f, true)) g a.tbl a.cnt (Function.update a.held f 0)
    simp only [hn, Option.map_none, Option.map_some, reduceCtorEq, if_false, Nat.add_zero,
      Option.some.injEq] at h
    exact h
  -- nothing but `x` maps `f`
  have hother : ∀ y ∈ cells, ∀ w, a.map y ≠ some (f, w) := by
    intro y hy w h
    have := mapRefs_pos hy h
    omega
  have hmap : ∀ y, (a.mapHeld x f).map y = if y = x then some (f, true) else a.map y :=
    fun y => Function.update_apply ..
  constructor
  · intro g hg hg'
    show a.cnt g = (a.mapHeld x f).mapRefs g + a.tblRefs g + Function.update a.held f 0 g
    have := I.count g hg hg'
    rw [hup, Function.update_apply]
    by_cases hgf : g = f
    · subst hgf; simp; omega
    · rw [if_neg hgf, if_neg (Ne.symm hgf)]; omega
  · intro g hg hg'
    show a.tblRefs g + Function.update a.held f 0 g ≤ 1
    have := I.sole g hg hg'
    rw [Function.update_apply]
    split <;> omega
  · intro g hg hg' hpos
    show a.tblRefs g + Function.update a.held f 0 g = 0
    rw [hup] at hpos
    rw [Function.update_apply]
    by_cases hgf : g = f
    · subst hgf; simp; omega
    · rw [if_neg (Ne.symm hgf)] at hpos
      rw [if_neg hgf]
      exact I.apart g hg hg' hpos
  · intro y hy g hmy
    rw [hmap] at hmy
    split at hmy
    · cases hmy; exact ⟨hlo, hhi, hc⟩
    · exact I.writable y hy g hmy
  · exact I.tblMain
  · intro y hy g w hmy
    rw [hmap] at hmy
    split at hmy
    · cases hmy; exact Or.inr ⟨hlo, hhi⟩
    · exact I.mapMain y hy g w hmy
  · intro y hy hty
    rw [hmap]
    split
    · next hyx => subst hyx; exact absurd hty ht
    · exact I.mapTbl y hy hty
  · intro g hg
    have hg' : 0 < Function.update a.held f 0 g := hg
    rw [Function.update_apply] at hg'
    split at hg'
    · omega
    · exact I.heldMain g hg'
  · intro y hy z hz g w w' hg hmy hmz
    rw [hmap] at hmy hmz
    split at hmy
    · cases hmy
      split at hmz
      · next h1 h2 => rw [h1, h2]; exact ⟨rfl, rfl⟩
      · exact absurd hmz (hother z hz w')
    · split at hmz
      · cases hmz; exact absurd hmy (hother y hy w)
      · exact I.place y hy z hz g w w' hg hmy hmz

theorem inv_unmap (hlow : 256 ≤ lo) (I : Inv lo hi a) {x : Nat × Nat} {f : Nat} {w : Bool}
    (hx : x ∈ cells) (hm : a.map x = some (f, w)) : Inv lo hi (a.unmap x f) := by
  have hup : ∀ g, (a.unmap x f).mapRefs g + (if f = g then 1 else 0) = a.mapRefs g := by
    intro g
    have h := mapRefs_update (a := a) hx none g a.tbl (a.unmap x f).cnt a.held
    simp only [hm, Option.map_none, Option.map_some, reduceCtorEq, if_false, Nat.add_zero,
      Option.some.injEq] at h
    exact h
  have hcnt : ∀ g, 256 ≤ g →
      (a.unmap x f).cnt g = if g = f then a.cnt f - 1 else a.cnt g := by
    intro g hg
    show (if 256 ≤ f then Function.update a.cnt f (a.cnt f - 1) else a.cnt) g = _
    by_cases hf : 256 ≤ f
    · rw [if_pos hf, Function.update_apply]
    · rw [if_neg hf, if_neg (by omega)]
  have hmap : ∀ y, (a.unmap x f).map y = if y = x then none else a.map y :=
    fun y => Function.update_apply ..
  constructor
  · intro g hg hg'
    show (a.unmap x f).cnt g = (a.unmap x f).mapRefs g + a.tblRefs g + a.held g
    have := I.count g hg hg'
    have hu := hup g
    rw [hcnt g (by omega)]
    by_cases hgf : g = f
    · subst hgf; simp at hu ⊢; omega
    · rw [if_neg (Ne.symm hgf)] at hu
      rw [if_neg hgf]; omega
  · exact I.sole
  · intro g hg hg' hpos
    have hu := hup g
    exact I.apart g hg hg' (by omega)
  · intro y hy g hmy
    rw [hmap] at hmy
    split at hmy
    · cases hmy
    · next hyx =>
      obtain ⟨h1, h2, h3⟩ := I.writable y hy g hmy
      refine ⟨h1, h2, ?_⟩
      rw [hcnt g (by omega), if_neg]
      · exact h3
      · rintro rfl
        exact hyx (I.writable_sole hy hx hmy hm)
  · exact I.tblMain
  · intro y hy g w' hmy
    rw [hmap] at hmy
    split at hmy
    · cases hmy
    · exact I.mapMain y hy g w' hmy
  · intro y hy hty
    rw [hmap]
    split
    · rfl
    · exact I.mapTbl y hy hty
  · exact I.heldMain
  · intro y hy z hz g w1 w2 hg hmy hmz
    rw [hmap] at hmy hmz
    split at hmy
    · cases hmy
    · split at hmz
      · cases hmz
      · exact I.place y hy z hz g w1 w2 hg hmy hmz

theorem inv_share (I : Inv lo hi a) {x y : Nat × Nat} {f : Nat} {w : Bool}
    (hx : x ∈ cells) (hy : y ∈ cells) (hxy : x ≠ y) (hf : 256 ≤ f)
    (hm : a.map x = some (f, w)) (hn : a.map y = none) (ht : a.tbl y.1 ≠ none)
    (hplace : x.1 % 16 = y.1 % 16 ∧ x.2 = y.2) : Inv lo hi (a.share x y f) := by
  have hmain : lo ≤ f ∧ f < hi := by
    rcases I.mapMain x hx f w hm with h | h
    · omega
    · exact h
  have hmap : ∀ z, (a.share x y f).map z =
      if z = x ∨ z = y then some (f, false) else a.map z := by
    intro z
    show Function.update (Function.update a.map y (some (f, false))) x (some (f, false)) z = _
    rw [Function.update_apply, Function.update_apply]
    by_cases h1 : z = x
    · simp [h1]
    · by_cases h2 : z = y <;> simp [h1, h2]
  have hup : ∀ g, (a.share x y f).mapRefs g = a.mapRefs g + if f = g then 1 else 0 := by
    intro g
    have hy' : (Function.update a.map y (some (f, false))) x = some (f, w) := by
      rw [Function.update_of_ne hxy]; exact hm
    have h1 := mapRefs_update (a := a) hy (some (f, false)) g a.tbl a.cnt a.held
    have h2 := mapRefs_update (a := ⟨a.tbl, Function.update a.map y (some (f, false)), a.cnt, a.held⟩)
      hx (some (f, false)) g a.tbl (a.share x y f).cnt a.held
    simp only [hn, hy', Option.map_none, Option.map_some, reduceCtorEq, if_false, Nat.add_zero,
      Option.some.injEq] at h1 h2
    have h3 := Nat.add_right_cancel h2
    rw [h1] at h3
    exact h3
  -- a cell that maps `f` sits where `x` does
  have hat : ∀ z ∈ cells, ∀ w', (a.share x y f).map z = some (f, w') →
      z.1 % 16 = x.1 % 16 ∧ z.2 = x.2 := by
    intro z hz w' hmz
    rw [hmap] at hmz
    split at hmz
    · next h =>
      rcases h with rfl | rfl
      · exact ⟨rfl, rfl⟩
      · exact ⟨hplace.1.symm, hplace.2.symm⟩
    · exact I.place z hz x hx f w' w hf hmz hm
  constructor
  · intro g hg hg'
    show Function.update a.cnt f (a.cnt f + 1) g =
      (a.share x y f).mapRefs g + a.tblRefs g + a.held g
    have := I.count g hg hg'
    rw [hup, Function.update_apply]
    by_cases hgf : g = f
    · subst hgf; simp; omega
    · rw [if_neg hgf, if_neg (Ne.symm hgf)]; omega
  · exact I.sole
  · intro g hg hg' hpos
    show a.tblRefs g + a.held g = 0
    rw [hup] at hpos
    by_cases hgf : g = f
    · subst hgf; exact I.apart g hg hg' (mapRefs_pos hx hm)
    · rw [if_neg (Ne.symm hgf)] at hpos
      exact I.apart g hg hg' hpos
  · intro z hz g hmz
    rw [hmap] at hmz
    split at hmz
    · cases hmz
    · next hzxy =>
      obtain ⟨h1, h2, h3⟩ := I.writable z hz g hmz
      refine ⟨h1, h2, ?_⟩
      show Function.update a.cnt f (a.cnt f + 1) g = 1
      rw [Function.update_of_ne]
      · exact h3
      · rintro rfl
        exact hzxy (Or.inl (I.writable_sole hz hx hmz hm))
  · exact I.tblMain
  · intro z hz g w' hmz
    rw [hmap] at hmz
    split at hmz
    · cases hmz; exact Or.inr hmain
    · exact I.mapMain z hz g w' hmz
  · intro z hz htz
    have htz' : a.tbl z.1 = none := htz
    rw [hmap]
    split
    · next h =>
      rcases h with rfl | rfl
      · exact absurd (I.mapTbl z hz htz') (by rw [hm]; simp)
      · exact absurd htz' ht
    · exact I.mapTbl z hz htz'
  · exact I.heldMain
  · intro u hu v hv g w1 w2 hg hmu hmv
    by_cases hgf : g = f
    · subst hgf
      have h1 := hat u hu w1 hmu
      have h2 := hat v hv w2 hmv
      exact ⟨h1.1.trans h2.1.symm, h1.2.trans h2.2.symm⟩
    · rw [hmap] at hmu hmv
      split at hmu
      · cases hmu; exact absurd rfl hgf
      · split at hmv
        · cases hmv; exact absurd rfl hgf
        · exact I.place u hu v hv g w1 w2 hg hmu hmv

theorem inv_shareLow (hlow : 256 ≤ lo) (I : Inv lo hi a) {y : Nat × Nat} {f : Nat}
    (hy : y ∈ cells) (hf : f < 256) (hn : a.map y = none) (ht : a.tbl y.1 ≠ none) :
    Inv lo hi (a.shareLow y f) := by
  have hmap : ∀ z, (a.shareLow y f).map z = if z = y then some (f, false) else a.map z :=
    fun z => Function.update_apply ..
  have hup : ∀ g, lo ≤ g → (a.shareLow y f).mapRefs g = a.mapRefs g := by
    intro g hg
    have h := mapRefs_update (a := a) hy (some (f, false)) g a.tbl a.cnt a.held
    simp only [hn, Option.map_none, Option.map_some, reduceCtorEq, if_false, Nat.add_zero,
      Option.some.injEq] at h
    rw [if_neg (by omega), Nat.add_zero] at h
    exact h
  constructor
  · intro g hg hg'
    show a.cnt g = (a.shareLow y f).mapRefs g + a.tblRefs g + a.held g
    rw [hup g hg]
    exact I.count g hg hg'
  · exact I.sole
  · intro g hg hg' hpos
    rw [hup g hg] at hpos
    exact I.apart g hg hg' hpos
  · intro z hz g hmz
    rw [hmap] at hmz
    split at hmz
    · cases hmz
    · exact I.writable z hz g hmz
  · exact I.tblMain
  · intro z hz g w hmz
    rw [hmap] at hmz
    split at hmz
    · cases hmz; exact Or.inl hf
    · exact I.mapMain z hz g w hmz
  · intro z hz htz
    rw [hmap]
    split
    · next h => subst h; exact absurd htz ht
    · exact I.mapTbl z hz htz
  · exact I.heldMain
  · intro u hu v hv g w1 w2 hg hmu hmv
    rw [hmap] at hmu hmv
    split at hmu
    · cases hmu; omega
    · split at hmv
      · cases hmv; omega
      · exact I.place u hu v hv g w1 w2 hg hmu hmv

theorem inv_setWritable (I : Inv lo hi a) {x : Nat × Nat} {f : Nat} {w : Bool} (hx : x ∈ cells)
    (hm : a.map x = some (f, w)) (hlo : lo ≤ f) (hhi : f < hi) (hc : a.cnt f = 1) :
    Inv lo hi (a.setWritable x f) := by
  have hmap : ∀ z, (a.setWritable x f).map z = if z = x then some (f, true) else a.map z :=
    fun z => Function.update_apply ..
  have hup : ∀ g, (a.setWritable x f).mapRefs g = a.mapRefs g := by
    intro g
    have h := mapRefs_update (a := a) hx (some (f, true)) g a.tbl a.cnt a.held
    simp only [hm, Option.map_some, Option.some.injEq] at h
    exact Nat.add_right_cancel h
  constructor
  · intro g hg hg'
    show a.cnt g = (a.setWritable x f).mapRefs g + a.tblRefs g + a.held g
    rw [hup g]
    exact I.count g hg hg'
  · exact I.sole
  · intro g hg hg' hpos
    rw [hup g] at hpos
    exact I.apart g hg hg' hpos
  · intro z hz g hmz
    rw [hmap] at hmz
    split at hmz
    · cases hmz; exact ⟨hlo, hhi, hc⟩
    · exact I.writable z hz g hmz
  · exact I.tblMain
  · intro z hz g w' hmz
    rw [hmap] at hmz
    split at hmz
    · cases hmz; exact Or.inr ⟨hlo, hhi⟩
    · exact I.mapMain z hz g w' hmz
  · intro z hz htz
    have htz' : a.tbl z.1 = none := htz
    rw [hmap]
    split
    · next h => subst h; exact absurd (I.mapTbl z hz htz') (by rw [hm]; simp)
    · exact I.mapTbl z hz htz'
  · exact I.heldMain
  · intro u hu v hv g w1 w2 hg hmu hmv
    -- the frame of every cell is as before, so the places are
    have hback : ∀ z w', (a.setWritable x f).map z = some (g, w') → ∃ w'', a.map z = some (g, w'') := by
      intro z w' hmz
      rw [hmap] at hmz
      split at hmz
      · next h => cases hmz; subst h; exact ⟨w, hm⟩
      · exact ⟨w', hmz⟩
    obtain ⟨w1', h1⟩ := hback u w1 hmu
    obtain ⟨w2', h2⟩ := hback v w2 hmv
    exact I.place u hu v hv g w1' w2' hg h1 h2

end Space

end Linux011.Mm
