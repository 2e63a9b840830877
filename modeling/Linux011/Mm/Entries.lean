import Linux011.Mm.Memory
import Linux011.Mm.Space

/-!
# Memory manager — reading the page tables

The bottom of the accounting proof: what the words of the page directory and
of the page tables say (`tblOf`, `mapOf`), what a task sees through them
(`views`), and how one write to physical memory changes that.

* `present_or_two`, `frameOf_and_not_two`, … — the bit operations of
  `mm/memory.c` on an entry;
* `space` — the `Space` a machine state stands for;
* `mapOf_storePte`, `tblOf_storePde`, `mapOf_otherFrame` — a write to a
  page-table entry, to a page-directory entry, to any other frame;
* `views_eq_of_frame` — what a task sees does not change when the written
  frame is not one it maps.
-/

namespace Linux011.Mm

open Linux011.Lib

/-! ## Bits of an entry -/

/-- The frame an entry names. -/
def frameOf (w : Word) : Nat := w.toNat / 4096

theorem pageAddr_eq (w : Word) : pageAddr w = frameOf w * 4096 := by
  unfold pageAddr frameOf
  have h : (w &&& 0xfffff000#32) = w >>> 12 <<< 12 := by
    rw [BitVec.shiftLeft_ushiftRight]
    rfl
  rw [h]
  simp only [BitVec.toNat_shiftLeft, BitVec.toNat_ushiftRight, Nat.shiftRight_eq_div_pow,
    Nat.shiftLeft_eq]
  have := w.isLt
  omega

/-- The words of the table an entry names. -/
theorem pageAddr_div (w : Word) : pageAddr w / 4 = frameOf w * 1024 := by
  rw [pageAddr_eq]
  omega

theorem present_iff (w : Word) : present w = true ↔ w.toNat % 2 = 1 := by
  unfold present
  rw [bne_iff_ne, ne_eq, ← BitVec.toNat_inj, BitVec.toNat_and]
  simp only [BitVec.toNat_ofNat, Nat.reducePow, Nat.reduceMod, Nat.and_one_is_mod]
  omega

theorem present_eq (w : Word) : present w = w.getLsbD 0 := by
  rw [Bool.eq_iff_iff, present_iff, BitVec.getLsbD, Nat.testBit_zero, decide_eq_true_eq]

theorem writable_eq (w : Word) : writable w = w.getLsbD 1 := by
  unfold writable
  rw [show (2#32 : Word) = BitVec.twoPow 32 1 from rfl, BitVec.and_twoPow]
  cases w.getLsbD 1 <;> rfl

@[simp] theorem present_zero : present 0#32 = false := by decide

@[simp] theorem present_or_two (w : Word) : present (w ||| 2#32) = present w := by
  simp [present_eq]

@[simp] theorem writable_or_two (w : Word) : writable (w ||| 2#32) = true := by
  simp [writable_eq]

@[simp] theorem present_and_not_two (w : Word) : present (w &&& ~~~2#32) = present w := by
  simp [present_eq]

@[simp] theorem writable_and_not_two (w : Word) : writable (w &&& ~~~2#32) = false := by
  simp [writable_eq]

@[simp] theorem frameOf_or_two (w : Word) : frameOf (w ||| 2#32) = frameOf w := by
  have h : (w ||| 2#32) >>> 12 = w >>> 12 := by
    simp [BitVec.ushiftRight_or_distrib]
  have h' := congrArg BitVec.toNat h
  simp only [BitVec.toNat_ushiftRight, Nat.shiftRight_eq_div_pow] at h'
  exact h'

@[simp] theorem frameOf_and_not_two (w : Word) : frameOf (w &&& ~~~2#32) = frameOf w := by
  have h : (w &&& ~~~2#32) >>> 12 = w >>> 12 := by
    rw [BitVec.ushiftRight_and_distrib]
    have h2 : (~~~2#32 : Word) >>> 12 = BitVec.allOnes 32 >>> 12 := by decide
    rw [h2, ← BitVec.ushiftRight_and_distrib, BitVec.and_allOnes]
  have h' := congrArg BitVec.toNat h
  simp only [BitVec.toNat_ushiftRight, Nat.shiftRight_eq_div_pow] at h'
  exact h'

theorem toNat_entry7 {f : Nat} (hf : f < 2 ^ 20) : (entry7 (f * 4096)).toNat = f * 4096 + 7 := by
  unfold entry7
  rw [BitVec.toNat_or]
  have h : 2 ^ 12 * f + 7 = 2 ^ 12 * f ||| 7 := Nat.two_pow_add_eq_or_of_lt (by decide) f
  simp only [BitVec.toNat_ofNat]
  rw [Nat.mod_eq_of_lt (by omega), Nat.mod_eq_of_lt (by omega)]
  rw [show f * 4096 = 2 ^ 12 * f by omega, ← h]

theorem present_entry7 {f : Nat} (hf : f < 2 ^ 20) : present (entry7 (f * 4096)) = true := by
  rw [present_iff, toNat_entry7 hf]
  omega

theorem frameOf_entry7 {f : Nat} (hf : f < 2 ^ 20) : frameOf (entry7 (f * 4096)) = f := by
  unfold frameOf
  rw [toNat_entry7 hf]
  omega

theorem writable_entry7 (addr : Nat) : writable (entry7 addr) = true := by
  unfold entry7
  simp [writable_eq]

/-- `this_page > LOW_MEM` asks whether the page lies at or above 1 MB. -/
theorem lowMem_lt_iff {w : Word} (hp : present w = true) : w.toNat > lowMem ↔ 256 ≤ frameOf w := by
  rw [present_iff] at hp
  unfold lowMem frameOf
  omega

private theorem and_ffc_div (x : Nat) : (x &&& 0xffc) / 4 = x / 4 % 1024 := by
  have h : (x &&& 0xffc) >>> 2 = x >>> 2 &&& 2 ^ 10 - 1 := Nat.shiftRight_and_distrib
  rw [Nat.and_two_pow_sub_one_eq_mod] at h
  simpa only [Nat.shiftRight_eq_div_pow] using h

theorem dirEntry_eq (address : Nat) : dirEntry address = address / 2 ^ 22 % 1024 := by
  unfold dirEntry
  rw [and_ffc_div, Nat.shiftRight_eq_div_pow]
  omega

theorem tableIndex_eq (address : Nat) : tableIndex address = address / 2 ^ 12 % 1024 := by
  unfold tableIndex
  rw [and_ffc_div, Nat.shiftRight_eq_div_pow]
  omega

theorem tableIndex_lt (address : Nat) : tableIndex address < 1024 := by
  rw [tableIndex_eq]
  omega

/-! ## What the tables say -/

/-- The page-table frame of a page-directory entry of slots 1..63. -/
def tblOf (s : Mem) (d : Nat) : Option Nat :=
  if (16 ≤ d ∧ d < 1024) ∧ present (s.phys d) = true then some (frameOf (s.phys d)) else none

/-- An entry as frame and write permission. -/
def entryOf (w : Word) : Option (Nat × Bool) :=
  if present w then some (frameOf w, writable w) else none

/-- What a page-table entry of slots 1..63 maps. -/
def mapOf (s : Mem) (x : Nat × Nat) : Option (Nat × Bool) :=
  if x.2 < 1024 then
    match tblOf s x.1 with
    | some t => entryOf (s.phys (t * 1024 + x.2))
    | none => none
  else none

/-- The use of memory a machine state stands for, `held` the frames the kernel
holds. -/
def space (s : Mem) (held : Nat → Nat) : Space where
  tbl := tblOf s
  map := mapOf s
  cnt := fun f => if 256 ≤ f then s.memMap (f - 256) else 0
  held := held

/-- The 1024 words of a frame. -/
def contents (s : Mem) (f : Nat) : Fin 1024 → Word := fun j => s.phys (f * 1024 + j)

/-- What is seen through an entry. A child of task 0 has the page directory
itself among its pages; that one is not looked at. -/
def pageView (s : Mem) : Option (Nat × Bool) → Option (Fin 1024 → Word)
  | some (f, _) => if f ≠ 0 then some (contents s f) else none
  | none => none

/-- What a task sees at a cell. -/
def views (s : Mem) (x : Nat × Nat) : Option (Fin 1024 → Word) := pageView s (mapOf s x)

theorem tblOf_eq_some {s : Mem} {d t : Nat} :
    tblOf s d = some t ↔ d ∈ dirs ∧ present (s.phys d) = true ∧ frameOf (s.phys d) = t := by
  unfold tblOf
  rw [mem_dirs]
  by_cases hc : (16 ≤ d ∧ d < 1024) ∧ present (s.phys d) = true
  · rw [if_pos hc]
    constructor
    · intro h
      exact ⟨hc.1, hc.2, Option.some.inj h⟩
    · rintro ⟨-, -, rfl⟩
      rfl
  · rw [if_neg hc]
    constructor
    · intro h
      cases h
    · rintro ⟨h1, h2, -⟩
      exact absurd ⟨h1, h2⟩ hc

theorem tblOf_eq_none {s : Mem} {d : Nat} (hd : d ∈ dirs) :
    tblOf s d = none ↔ present (s.phys d) = false := by
  unfold tblOf
  rw [mem_dirs] at hd
  cases present (s.phys d) <;> simp [hd]

theorem mapOf_of_tbl {s : Mem} {d j t : Nat} (ht : tblOf s d = some t) (hj : j < 1024) :
    mapOf s (d, j) = entryOf (s.phys (t * 1024 + j)) := by
  unfold mapOf
  simp only [hj, if_true, ht]

theorem mapOf_eq_none_of_tbl {s : Mem} {d j : Nat} (ht : tblOf s d = none) :
    mapOf s (d, j) = none := by
  unfold mapOf
  simp only [ht]
  split <;> rfl

theorem mem_cells_of_mapOf {s : Mem} {x : Nat × Nat} {f : Nat} {w : Bool}
    (h : mapOf s x = some (f, w)) : x ∈ cells := by
  unfold mapOf at h
  split at h
  · next hj =>
    split at h
    · next t ht => exact mem_cells.mpr ⟨(tblOf_eq_some.mp ht).1, hj⟩
    · cases h
  · cases h

/-! ## Writes to physical memory -/

/-- Only words of frame `g` differ. -/
def OnlyFrame (g : Nat) (s s' : Mem) : Prop := ∀ a, a / 1024 ≠ g → s'.phys a = s.phys a

theorem onlyFrame_store {s s' : Mem} {g j : Nat} {w : Word} (hj : j < 1024)
    (h : s'.phys = Function.update s.phys (g * 1024 + j) w) : OnlyFrame g s s' := by
  intro a ha
  rw [h]
  exact Function.update_of_ne (by rintro rfl; omega) _ _

theorem contents_otherFrame {s s' : Mem} {g f : Nat} (h : OnlyFrame g s s') (hf : f ≠ g) :
    contents s' f = contents s f := by
  funext j
  exact h _ (by have := j.isLt; omega)

/-- A write outside the page directory and the page tables changes no entry. -/
theorem tblOf_otherFrame {s s' : Mem} {g : Nat} (h : OnlyFrame g s s') (hg : g ≠ 0) :
    tblOf s' = tblOf s := by
  funext d
  unfold tblOf
  by_cases hd : 16 ≤ d ∧ d < 1024
  · rw [h d (by omega)]
  · rw [if_neg (by tauto), if_neg (by tauto)]

theorem mapOf_otherFrame {s s' : Mem} {g : Nat} (h : OnlyFrame g s s') (hg : g ≠ 0)
    (hnt : ∀ d, tblOf s d ≠ some g) : mapOf s' = mapOf s := by
  funext x
  unfold mapOf
  rw [tblOf_otherFrame h hg]
  by_cases hj : x.2 < 1024
  · rw [if_pos hj, if_pos hj]
    cases ht : tblOf s x.1 with
    | none => rfl
    | some t =>
      have htg : t ≠ g := by
        rintro rfl
        exact hnt x.1 ht
      show entryOf (s'.phys (t * 1024 + x.2)) = entryOf (s.phys (t * 1024 + x.2))
      rw [h _ (by omega)]
  · rw [if_neg hj, if_neg hj]

/-- What is seen does not change when the written frame is not mapped. -/
theorem views_eq_of_frame {s s' : Mem} {g : Nat} (h : OnlyFrame g s s') {x : Nat × Nat}
    (hm : mapOf s' x = mapOf s x) (hx : ∀ w, mapOf s x = some (g, w) → g = 0) :
    views s' x = views s x := by
  unfold views
  rw [hm]
  cases hmx : mapOf s x with
  | none => rfl
  | some p =>
    obtain ⟨f, w⟩ := p
    by_cases hf : f ≠ 0
    · have hfg : f ≠ g := by
        rintro rfl
        exact absurd (hx w hmx) hf
      simp only [pageView, contents_otherFrame h hfg]
    · simp only [pageView, if_neg hf]

/-- What is seen through equal entries whose frame is not written. -/
theorem pageView_eq_of_frame {s s' : Mem} {g f : Nat} {w w' : Bool} (h : OnlyFrame g s s')
    (hf : f ≠ g) : pageView s' (some (f, w)) = pageView s (some (f, w')) := by
  simp only [pageView, contents_otherFrame h hf]

/-! ## Writes to the tables -/

/-- Writing one page-table entry changes one cell. The tables of other
entries are other frames (`hinj`), and no table is the page directory. -/
theorem mapOf_storePte {s s' : Mem} {d j t : Nat} {w : Word}
    (h : s'.phys = Function.update s.phys (t * 1024 + j) w)
    (ht : tblOf s d = some t) (hj : j < 1024)
    (ht0 : t ≠ 0) (hinj : ∀ e, tblOf s e = some t → e = d) :
    mapOf s' = Function.update (mapOf s) (d, j) (entryOf w) := by
  have htbl : tblOf s' = tblOf s := tblOf_otherFrame (onlyFrame_store hj h) ht0
  funext x
  by_cases hx : x = (d, j)
  · subst hx
    rw [Function.update_self, mapOf_of_tbl (by rw [htbl]; exact ht) hj, h, Function.update_self]
  · rw [Function.update_of_ne hx]
    obtain ⟨e, k⟩ := x
    unfold mapOf
    rw [htbl]
    by_cases hk : k < 1024
    · simp only [hk, if_true]
      cases hte : tblOf s e with
      | none => rfl
      | some u =>
        show entryOf (s'.phys (u * 1024 + k)) = entryOf (s.phys (u * 1024 + k))
        rw [h, Function.update_of_ne]
        intro heq
        -- one word, so one table and one index
        have hut : u = t := by omega
        have hkj : k = j := by omega
        subst hut hkj
        exact hx (by rw [hinj e hte])
    · simp only [hk, if_false]

/-- What is seen after one page-table entry was written: the new entry must
not map the table it is in. -/
theorem views_storePte {s s' : Mem} {d j t : Nat} {w : Word}
    (h : s'.phys = Function.update s.phys (t * 1024 + j) w)
    (ht : tblOf s d = some t) (hj : j < 1024)
    (ht0 : t ≠ 0) (hinj : ∀ e, tblOf s e = some t → e = d)
    (hnm : ∀ x b, mapOf s x ≠ some (t, b)) (hw : frameOf w ≠ t) :
    views s' = Function.update (views s) (d, j) (pageView s (entryOf w)) := by
  have hof := onlyFrame_store hj h
  have hmap := mapOf_storePte h ht hj ht0 hinj
  funext x
  by_cases hx : x = (d, j)
  · subst hx
    rw [Function.update_self]
    unfold views
    rw [hmap, Function.update_self]
    unfold entryOf
    split
    · exact pageView_eq_of_frame hof hw
    · rfl
  · rw [Function.update_of_ne hx]
    have hmx : mapOf s' x = mapOf s x := by rw [hmap, Function.update_of_ne hx]
    exact views_eq_of_frame hof hmx (fun b hb => absurd hb (hnm x b))

/-- Writing one page-directory entry changes one table reference. -/
theorem tblOf_storePde {s s' : Mem} {d : Nat} {w : Word}
    (h : s'.phys = Function.update s.phys d w) (hd : d ∈ dirs) :
    tblOf s' = Function.update (tblOf s) d (if present w then some (frameOf w) else none) := by
  funext e
  unfold tblOf
  rw [h]
  by_cases he : e = d
  · subst he
    have := mem_dirs.mp hd
    simp only [Function.update_self, this, and_self, true_and]
  · rw [Function.update_of_ne he, Function.update_of_ne he]

/-- If the cells of the entry are empty before and after, writing a
page-directory entry changes no cell. -/
theorem mapOf_storePde {s s' : Mem} {d : Nat} {w : Word}
    (h : s'.phys = Function.update s.phys d w) (hd : d ∈ dirs)
    (htbl0 : ∀ e t, tblOf s e = some t → t ≠ 0)
    (hbefore : ∀ j < 1024, mapOf s (d, j) = none)
    (hafter : present w = true → frameOf w ≠ 0 ∧
      ∀ j < 1024, present (s.phys (frameOf w * 1024 + j)) = false) :
    mapOf s' = mapOf s := by
  have hd' := mem_dirs.mp hd
  funext x
  obtain ⟨e, k⟩ := x
  by_cases hk : k < 1024
  · by_cases he : e = d
    · subst he
      rw [hbefore k hk]
      unfold mapOf
      rw [if_pos hk, tblOf_storePde h hd, h]
      simp only [Function.update_self]
      by_cases hw : present w = true
      · obtain ⟨h0, hz⟩ := hafter hw
        simp only [hw, if_true]
        rw [Function.update_of_ne (by omega)]
        unfold entryOf
        rw [hz k hk]
        rfl
      · simp only [hw, Bool.false_eq_true, if_false]
    · unfold mapOf
      rw [if_pos hk, if_pos hk, tblOf_storePde h hd, h]
      simp only [Function.update_of_ne he]
      cases hte : tblOf s e with
      | none => rfl
      | some u =>
        have := htbl0 e u hte
        show entryOf (Function.update s.phys d w (u * 1024 + k)) = entryOf (s.phys (u * 1024 + k))
        rw [Function.update_of_ne (by omega)]
  · unfold mapOf
    rw [if_neg hk, if_neg hk]

theorem onlyFrame_storePde {s s' : Mem} {d : Nat} {w : Word}
    (h : s'.phys = Function.update s.phys d w) (hd : d ∈ dirs) : OnlyFrame 0 s s' := by
  have := mem_dirs.mp hd
  exact onlyFrame_store (j := d) (by omega) (by rw [Nat.zero_mul, Nat.zero_add]; exact h)

end Linux011.Mm
