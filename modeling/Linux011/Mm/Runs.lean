import Linux011.Mm.Fault
import Mathlib.Logic.Relation

/-!
# Memory manager — `mem_map` over whole runs

The memory manager as a machine: from `mem_init` on, any sequence of calls
that the rest of the kernel makes, with the frames the kernel holds carried
along (`held`). A call that panics ends the run; one whose task leaves through
`oom` does not.

* `reach_acc` — every reachable state keeps the accounts of `Mm/Account.lean`;
* `mem_map_exact` — what that says of `mem_map`: counts are the uses, a
  writable page is not shared, no count wraps, no free page is freed, no page
  in use is handed out.
-/

namespace Linux011.Mm

open Linux011.Lib

/-! ## Start-up -/

/-- Memory as `boot/head.s` leaves it: the directory entries of the task slots
are clear, the first one names the page table in frame 1, whose entries map
the first megabytes onto themselves. -/
structure Booted (phys : Nat → Word) : Prop where
  slots : ∀ d, 16 ≤ d → d < 1024 → phys d = 0#32
  dir0  : phys 0 = entry7 0x1000
  pg0   : ∀ j, j < 1024 → phys (1024 + j) = entry7 (j * 4096)

/-- `setup_paging` of `boot/head.s`, in words: the directory and the four
kernel page tables, the rest of memory as it was. -/
def setupPaging (phys : Nat → Word) (a : Nat) : Word :=
  if a < 4 then entry7 ((a + 1) * 4096)
  else if a < 1024 then 0#32
  else if a < 5120 then entry7 ((a - 1024) * 4096)
  else phys a

theorem booted_setupPaging (phys : Nat → Word) : Booted (setupPaging phys) where
  slots := by
    intro d h1 h2
    unfold setupPaging
    rw [if_neg (by omega), if_pos h2]
  dir0 := rfl
  pg0 := by
    intro j hj
    unfold setupPaging
    rw [if_neg (by omega), if_neg (by omega), if_pos (by omega), Nat.add_sub_cancel_left]

/-- The bounds `main` passes to `mem_init`: main memory lies between 1 MB and
16 MB. -/
structure Bounds (startMem endMem : Nat) : Prop where
  start : 0x100000 ≤ startMem
  order : startMem ≤ endMem
  top   : endMem ≤ 0x1000000

/-- The first frame of main memory. -/
def firstFrame (startMem : Nat) : Nat := mapNr startMem + 256

/-- The end of main memory, in frames. -/
def endFrame (startMem endMem : Nat) : Nat := firstFrame startMem + (endMem - startMem) >>> 12

theorem endFrame_le {startMem endMem : Nat} (h : Bounds startMem endMem) :
    endFrame startMem endMem * 4096 ≤ endMem := by
  obtain ⟨h1, h2, h3⟩ := h
  unfold endFrame firstFrame mapNr lowMem
  rw [Nat.shiftRight_eq_div_pow, Nat.shiftRight_eq_div_pow]
  omega

theorem tblOf_booted {phys : Nat → Word} (hb : Booted phys) {m : Nat → Nat} {h : Nat} (d : Nat) :
    tblOf ⟨phys, m, h⟩ d = none := by
  unfold tblOf
  refine if_neg ?_
  rintro ⟨⟨h1, h2⟩, hp⟩
  have hp' : present (phys d) = true := hp
  rw [hb.slots d h1 h2, present_zero] at hp'
  cases hp'

/-- `mem_init` sets up the accounts. -/
theorem acc_memInit {phys : Nat → Word} {startMem endMem : Nat} (hb : Booted phys)
    (hm : Bounds startMem endMem) :
    Acc (firstFrame startMem) (endFrame startMem endMem) (memInit phys startMem endMem)
      (fun _ => 0) := by
  have hend := endFrame_le hm
  have htop := hm.top
  have htbl : ∀ d, tblOf (memInit phys startMem endMem) d = none := fun d => tblOf_booted hb d
  have hmap : ∀ x, mapOf (memInit phys startMem endMem) x = none := by
    rintro ⟨d, j⟩
    exact mapOf_eq_none_of_tbl (htbl d)
  refine ⟨by unfold firstFrame; omega, by omega, hend, ?_, ?_, ?_, ?_⟩
  · have hm0 : ∀ f, (space (memInit phys startMem endMem) fun _ => 0).mapRefs f = 0 := by
      intro f
      refine refs_eq_zero_iff.mpr ?_
      intro x _ hx
      have hnone : (space (memInit phys startMem endMem) fun _ => 0).map x = none := hmap x
      simp only [hnone, Option.map_none, reduceCtorEq] at hx
    have ht0 : ∀ f, (space (memInit phys startMem endMem) fun _ => 0).tblRefs f = 0 := by
      intro f
      refine refs_eq_zero_iff.mpr ?_
      intro d _ hd
      have hnone : (space (memInit phys startMem endMem) fun _ => 0).tbl d = none := htbl d
      rw [hnone] at hd
      cases hd
    constructor
    · intro f hlo hhi
      rw [hm0, ht0, space_cnt (by unfold firstFrame at hlo; omega)]
      show (if mapNr startMem ≤ f - 256 ∧
        f - 256 < mapNr startMem + (endMem - startMem) >>> 12 then 0 else used) = 0
      unfold endFrame firstFrame at *
      rw [if_pos (by omega)]
    · intro f _ _
      rw [ht0]
      exact Nat.zero_le 1
    · intro f _ _ hpos
      rw [hm0] at hpos
      omega
    · intro x _ f h
      rw [show (space (memInit phys startMem endMem) fun _ => 0).map x = none from hmap x] at h
      cases h
    · intro d _ f h
      rw [show (space (memInit phys startMem endMem) fun _ => 0).tbl d = none from htbl d] at h
      cases h
    · intro x _ f w h
      rw [show (space (memInit phys startMem endMem) fun _ => 0).map x = none from hmap x] at h
      cases h
    · intro x _ _
      exact hmap x
    · intro f h
      exact absurd h (Nat.lt_irrefl 0)
    · intro x _ y _ f w w' _ h _
      rw [show (space (memInit phys startMem endMem) fun _ => 0).map x = none from hmap x] at h
      cases h
  · intro f h1 h2 hout
    show (if mapNr startMem ≤ f - 256 ∧
      f - 256 < mapNr startMem + (endMem - startMem) >>> 12 then 0 else used) ≠ 0
    unfold endFrame firstFrame at hout
    rw [if_neg (by omega)]
    decide
  · show frameOf (phys 0) = 1
    rw [hb.dir0]
    exact frameOf_entry7 (f := 1) (by omega)
  · intro j hj
    show frameOf (phys (1024 + j)) < 256
    rw [hb.pg0 j (by omega), frameOf_entry7 (by omega)]
    omega

/-- 16 MB of memory, 4 MB of them buffers, and no page table for the tasks. -/
def bootMem : Mem := memInit (setupPaging fun _ => 0#32) 0x400000 0x1000000

theorem acc_bootMem : Acc (firstFrame 0x400000) (endFrame 0x400000 0x1000000) bootMem (fun _ => 0) :=
  acc_memInit (booted_setupPaging _) ⟨by decide, by decide, by decide⟩

/-! ## Calls -/

/-- The calls the kernel makes. Pages of the kernel are named by their frame;
`unWpPage` takes a pointer to a page-table entry. -/
inductive Call
  | getFreePage
  | freePage (f : Nat)
  | putPage (f address : Nat)
  | getEmptyPage (cur : Ldt) (address : Nat)
  | copyMem (nr : Nat) (cur : Ldt)
  | freePageTables (slot size : Nat)
  | unWpPage (cur : Ldt) (tableEntry : Nat)
  | doWpPage (cur : Ldt) (address : Nat)
  | writeVerify (cur : Ldt) (address : Nat)

/-- What the call runs; the result matters only where a page is returned. -/
def Call.run : Call → MM Nat
  | .getFreePage => Mm.getFreePage
  | .freePage f => do Mm.freePage (f * 4096); return 0
  | .putPage f address => Mm.putPage (f * 4096) address
  | .getEmptyPage cur address => do Mm.getEmptyPage cur address; return 0
  | .copyMem nr cur => do let _ ← Mm.copyMem nr cur; return 0
  | .freePageTables slot size => do let _ ← Mm.freePageTables (slot * 0x4000000) size; return 0
  | .unWpPage cur tableEntry => do Mm.unWpPage cur tableEntry; return 0
  | .doWpPage cur address => do Mm.doWpPage cur address; return 0
  | .writeVerify cur address => do Mm.writeVerify cur address; return 0

/-- Who calls what when. Pages are freed and put by those who hold them,
`put_page` and `get_empty_page` onto absent entries; fork goes from a task's
slot to another one; `do_exit` and `do_execve` free within one slot; a write
fault is raised at a present entry. -/
def Call.Valid (s : Mem) (held : Nat → Nat) : Call → Prop
  | .getFreePage => True
  | .freePage f => 0 < held f
  | .putPage f address => 0 < held f ∧ dirEntry address ∈ dirs ∧
      mapOf s (dirEntry address, tableIndex address) = none
  | .getEmptyPage cur address => (∃ slot, 1 ≤ slot ∧ cur.InSlot slot) ∧ dirEntry address ∈ dirs ∧
      mapOf s (dirEntry address, tableIndex address) = none
  | .copyMem nr cur => 1 ≤ nr ∧ nr < 64 ∧ ∃ slot, nr ≠ slot ∧ cur.InSlot slot
  | .freePageTables slot size => 1 ≤ slot ∧ slot < 64 ∧ size ≤ 0x4000000
  | .unWpPage cur tableEntry => (∃ slot, 1 ≤ slot ∧ cur.InSlot slot) ∧
      ∃ d j t, tblOf s d = some t ∧ j < 1024 ∧ tableEntry = t * 1024 + j ∧ mapOf s (d, j) ≠ none
  | .doWpPage cur address => (∃ slot, 1 ≤ slot ∧ cur.InSlot slot) ∧
      mapOf s (dirEntry address, tableIndex address) ≠ none
  | .writeVerify cur address => (∃ slot, 1 ≤ slot ∧ cur.InSlot slot) ∧ dirEntry address ∈ dirs

/-- The frames the kernel holds after the call returned `r`. -/
def Call.holders (held : Nat → Nat) (r : Nat) : Call → Nat → Nat
  | .getFreePage =>
    if r = 0 then held else Function.update held (r / 4096) (held (r / 4096) + 1)
  | .freePage f => Function.update held f (held f - 1)
  | .putPage f _ => if r = 0 then held else Function.update held f (held f - 1)
  | _ => held

/-- One step: a call that returns, a call whose task left, or a store into a
page the kernel holds or a task may write. -/
inductive Step : Mem × (Nat → Nat) → Mem × (Nat → Nat) → Prop
  | ret {s s' : Mem} {held : Nat → Nat} {r : Nat} (c : Call) (hv : c.Valid s held)
      (hr : c.run s = .ok r s') : Step (s, held) (s', c.holders held r)
  | left {s s' : Mem} {held : Nat → Nat} (c : Call) (hv : c.Valid s held)
      (hr : c.run s = .error .exit s') : Step (s, held) (s', held)
  | data {s : Mem} {held : Nat → Nat} (f j : Nat) (w : Word) (hj : j < 1024)
      (hf : 0 < held f ∨ ∃ x, mapOf s x = some (f, true)) :
      Step (s, held) ({ s with phys := Function.update s.phys (f * 1024 + j) w }, held)

/-- Runs of any length. -/
abbrev Reach : Mem × (Nat → Nat) → Mem × (Nat → Nat) → Prop := Relation.ReflTransGen Step

variable {lo hi : Nat} {s : Mem} {held : Nat → Nat}

/-! ## One step -/

/-- A page is held at most once. -/
theorem Acc.held_one (A : Acc lo hi s held) {f : Nat} (h : 0 < held f) : held f = 1 :=
  (A.inv.of_held h).2.2.1

/-- **Every valid call keeps the accounts**, also when its task leaves; the
only panic it can raise is that of a fork onto a slot still in use. -/
theorem call_spec (A : Acc lo hi s held) (c : Call) (hv : c.Valid s held) :
    wp c.run (fun r s' => Acc lo hi s' (c.holders held r))
      (fun e s' => e = .exit ∧ Acc lo hi s' held ∨ e = .panic .copyAlreadyExist) s := by
  have hlow := A.low
  cases c with
  -- the caller holds the page it is given
  | getFreePage =>
    refine wp_mono (getFreePage_spec A) ?_ (fun _ _ h => h.elim)
    rintro r s' (⟨rfl, rfl, -⟩ | ⟨f, rfl, hlo, hhi, h0, -, A', -⟩)
    · exact A
    · have hh0 := (A.free_unused hlo hhi h0).2.2
      have hdiv : f * 4096 / 4096 = f := Nat.mul_div_cancel f (by decide)
      unfold Call.holders
      simp only [hdiv, hh0]
      rw [if_neg (by omega)]
      exact A'
  | freePage f =>
    have hone := A.held_one hv
    unfold Call.run
    rw [wp_bind]
    refine wp_mono (freePage_held A hv) ?_ (fun _ _ h => h.elim)
    rintro _ s' ⟨A', -⟩
    simp only [Call.holders, hone]
    exact A'
  -- the page goes from its holder to the table, or stays
  | putPage f address =>
    obtain ⟨hh, hd, hempty⟩ := hv
    have hone := A.held_one hh
    have hmain := (A.inv.of_held hh).1
    refine wp_mono (putPage_spec A hd hempty hh) ?_ (fun _ _ h => h.elim)
    rintro r s' (⟨rfl, rfl, -⟩ | ⟨rfl, A', -⟩)
    · exact A
    · unfold Call.holders
      simp only [hone]
      rw [if_neg (by omega)]
      exact A'
  | getEmptyPage cur address =>
    obtain ⟨⟨slot, hslot, hcur⟩, hd, hempty⟩ := hv
    unfold Call.run
    rw [wp_bind]
    refine wp_mono (getEmptyPage_spec A hcur hslot hd hempty) ?_ (fun _ _ h => Or.inl ⟨h.1, h.2.1⟩)
    rintro _ s' ⟨A', -⟩
    exact A'
  | copyMem nr cur =>
    obtain ⟨hnr, hnr', slot, hne, hcur⟩ := hv
    unfold Call.run
    rw [wp_bind]
    by_cases h0 : slot = 0
    · subst h0
      refine wp_mono (copyMem_boot_spec A hcur hnr hnr') ?_ (fun _ _ h => Or.inr h.1)
      rintro _ s' ⟨A', -⟩
      exact A'
    · refine wp_mono (copyMem_spec A hcur (by omega) hnr hnr' hne) ?_ (fun _ _ h => Or.inr h.1)
      rintro _ s' ⟨A', -⟩
      exact A'
  | freePageTables slot size =>
    obtain ⟨hslot, hlt, hsize⟩ := hv
    unfold Call.run
    rw [wp_bind]
    refine wp_mono (freeSlot_spec A hlt hslot hsize) ?_ (fun _ _ h => h.elim)
    rintro _ s' ⟨A', -⟩
    exact A'
  | unWpPage cur tableEntry =>
    obtain ⟨⟨slot, hslot, hcur⟩, d, j, t, ht, hj, rfl, hm⟩ := hv
    obtain ⟨⟨g, w⟩, hm⟩ := Option.ne_none_iff_exists'.mp hm
    unfold Call.run
    rw [wp_bind]
    refine wp_mono (unWpPage_spec A hcur hslot ht hj hm) ?_ (fun _ _ h => Or.inl ⟨h.1, h.2.1⟩)
    rintro _ s' ⟨A', -⟩
    exact A'
  | doWpPage cur address =>
    obtain ⟨⟨slot, hslot, hcur⟩, hm⟩ := hv
    obtain ⟨⟨g, w⟩, hm⟩ := Option.ne_none_iff_exists'.mp hm
    unfold Call.run
    rw [wp_bind]
    refine wp_mono (doWpPage_spec A hcur hslot hm) ?_ (fun _ _ h => Or.inl ⟨h.1, h.2.1⟩)
    rintro _ s' ⟨A', -⟩
    exact A'
  | writeVerify cur address =>
    obtain ⟨⟨slot, hslot, hcur⟩, hd⟩ := hv
    unfold Call.run
    rw [wp_bind]
    refine wp_mono (writeVerify_spec A hcur hslot hd) ?_ (fun _ _ h => Or.inl ⟨h.1, h.2.1⟩)
    intro _ s' A'
    exact A'

/-- A frame the kernel holds or a task may write is main memory and no page
table. -/
theorem Acc.data_frame (A : Acc lo hi s held) {f : Nat}
    (hf : 0 < held f ∨ ∃ x, mapOf s x = some (f, true)) :
    lo ≤ f ∧ f < hi ∧ ∀ d, tblOf s d ≠ some f := by
  rcases hf with hh | ⟨x, hm⟩
  · obtain ⟨hlo, hhi, -, htr, -, -⟩ := A.inv.of_held hh
    refine ⟨hlo, hhi, ?_⟩
    intro d ht
    have := Space.tblRefs_pos (a := space s held) (tblOf_eq_some.mp ht).1 ht
    omega
  · obtain ⟨hlo, hhi, -⟩ := A.inv.writable x (mem_cells_of_mapOf hm) f hm
    exact ⟨hlo, hhi, fun d ht => A.tbl_not_mapped ht hm⟩

/-- What is stored in a frame of main memory that is no page table keeps the accounts
and every entry. -/
theorem Acc.otherFrame (A : Acc lo hi s held) {s' : Mem} {f : Nat} (hof : OnlyFrame f s s') (hlo : lo ≤ f)
    (hnt : ∀ d, tblOf s d ≠ some f) (hhigh : s'.highMemory = s.highMemory) (hmem : s'.memMap = s.memMap) :
    Acc lo hi s' held ∧ tblOf s' = tblOf s ∧ mapOf s' = mapOf s := by
  have hlow := A.low
  have htbl := tblOf_otherFrame hof (by omega)
  have hmap := mapOf_otherFrame hof (by omega) hnt
  have hspace : space s' held = space s held := by
    unfold space
    rw [htbl, hmap, hmem]
  refine ⟨A.move hhigh (fun _ _ _ _ => congrFun hmem _) (fun a ha => hof a (by omega)) ?_, htbl, hmap⟩
  rw [hspace]
  exact A.inv

/-- A store of one word. -/
theorem acc_frame (A : Acc lo hi s held) {f j : Nat} (hlo : lo ≤ f)
    (hnt : ∀ d, tblOf s d ≠ some f) (w : Word) (hj : j < 1024) :
    let s' : Mem := { s with phys := Function.update s.phys (f * 1024 + j) w }
    Acc lo hi s' held ∧ OnlyFrame f s s' ∧ tblOf s' = tblOf s ∧ mapOf s' = mapOf s := by
  intro s'
  have hof : OnlyFrame f s s' := onlyFrame_store hj rfl
  obtain ⟨hacc, htbl, hmap⟩ := A.otherFrame hof hlo hnt rfl rfl
  exact ⟨hacc, hof, htbl, hmap⟩

/-- A store into a frame the kernel holds or a task may write. -/
theorem acc_data (A : Acc lo hi s held) {f j : Nat} (w : Word) (hj : j < 1024)
    (hf : 0 < held f ∨ ∃ x, mapOf s x = some (f, true)) :
    let s' : Mem := { s with phys := Function.update s.phys (f * 1024 + j) w }
    Acc lo hi s' held ∧ OnlyFrame f s s' ∧ tblOf s' = tblOf s ∧ mapOf s' = mapOf s := by
  obtain ⟨hlo, hhi, hnt⟩ := A.data_frame hf
  exact acc_frame A hlo hnt w hj

/-- One step keeps the accounts. -/
theorem step_acc {a b : Mem × (Nat → Nat)} (A : Acc lo hi a.1 a.2) (h : Step a b) :
    Acc lo hi b.1 b.2 := by
  cases h with
  | @ret s s' held r c hv hr =>
    exact wp_ok (Q := fun r s' => Acc lo hi s' (c.holders held r)) (call_spec A c hv) hr
  | left c hv hr =>
    rcases wp_error (call_spec A c hv) hr with ⟨-, A'⟩ | he
    · exact A'
    · cases he
  | data f j w hj hf => exact (acc_data A w hj hf).1

/-! ## Whole runs -/

theorem reach_acc {a b : Mem × (Nat → Nat)} (A : Acc lo hi a.1 a.2) (h : Reach a b) :
    Acc lo hi b.1 b.2 := by
  induction h with
  | refl => exact A
  | tail _ hs ih => exact step_acc ih hs

/-- The present page-table entries of slots 1..63 that map frame `f`. -/
def pteUses (s : Mem) (f : Nat) : Nat := refs cells (fun x => (mapOf s x).map Prod.fst) f

/-- The present page-directory entries of slots 1..63 whose page table is
`f`. -/
def pdeUses (s : Mem) (f : Nat) : Nat := refs dirs (tblOf s) f

/-- **`mem_map` is exact in every reachable state.** For the frames of main
memory it counts the page-table entries, page-directory entries and kernel
holders of the frame; an entry that may be written is the only use; no count
is ever above 64, so the unsigned char never wraps; no call frees a free or
nonexistent page; and `get_free_page` never hands out a page in use. -/
theorem mem_map_exact {phys : Nat → Word} {startMem endMem : Nat} (hb : Booted phys)
    (hm : Bounds startMem endMem) {s : Mem} {held : Nat → Nat}
    (h : Reach (memInit phys startMem endMem, fun _ => 0) (s, held)) :
    (∀ f, firstFrame startMem ≤ f → f < endFrame startMem endMem →
      s.memMap (f - 256) = pteUses s f + pdeUses s f + held f ∧ s.memMap (f - 256) ≤ 64) ∧
    (∀ x f, mapOf s x = some (f, true) → firstFrame startMem ≤ f → f < endFrame startMem endMem →
      s.memMap (f - 256) = 1) ∧
    (∀ c : Call, c.Valid s held → ∀ p s', c.run s = .error (.panic p) s' →
      p ≠ .freeFreePage ∧ p ≠ .freeNonexistentPage) ∧
    (∀ f s', f ≠ 0 → getFreePage s = .ok (f * 4096) s' →
      (∀ x w, mapOf s x ≠ some (f, w)) ∧ (∀ d, tblOf s d ≠ some f) ∧ held f = 0) := by
  have A : Acc _ _ s held := reach_acc (acc_memInit hb hm) h
  have hlow := A.low
  refine ⟨?_, ?_, ?_, ?_⟩
  · intro f hlo hhi
    have hcount := A.inv.count f hlo hhi
    have hle := A.inv.cnt_le hlow hlo hhi
    rw [space_cnt (by omega)] at hcount hle
    exact ⟨hcount, hle⟩
  · intro x f hx _ _
    obtain ⟨hlo, -, hc⟩ := A.inv.writable x (mem_cells_of_mapOf hx) f hx
    rw [space_cnt (by omega)] at hc
    exact hc
  · intro c hv p s' hr
    rcases wp_error (call_spec A c hv) hr with ⟨he, -⟩ | he
    · cases he
    · cases he
      exact ⟨by decide, by decide⟩
  · intro f s' hf hr
    rcases wp_ok (getFreePage_spec A) hr with ⟨h0, -⟩ | ⟨g, hg, hlo, hhi, h0, -⟩
    · omega
    · have hfg : f = g := by omega
      subst hfg
      obtain ⟨hnt, hnm, hh⟩ := A.free_unused hlo hhi h0
      exact ⟨hnm, hnt, hh⟩

/-- A task in slot 1 gets a page, forks into slot 2 and writes to the page: the states
after each of the three. -/
def writeFault (cur : Ldt) (s : Mem) : Option (Mem × Mem × Mem) :=
  match (Call.getEmptyPage cur 0x4000000).run s with
  | .ok _ s1 =>
    match (Call.copyMem 2 cur).run s1 with
    | .ok _ s2 =>
      match (Call.doWpPage cur 0x4000000).run s2 with
      | .ok _ s3 => some (s1, s2, s3)
      | .error _ _ => none
    | .error _ _ => none
  | .error _ _ => none

/-- These are three steps of a run. -/
theorem reach_writeFault {cur : Ldt} {s s1 s2 s3 : Mem} (hcur : cur.InSlot 1)
    (hempty : ∀ d, tblOf s d = none) (h : writeFault cur s = some (s1, s2, s3))
    (hm : mapOf s2 (16, 0) ≠ none) : Reach (s, held) (s3, held) := by
  unfold writeFault at h
  split at h
  · next h1 =>
    split at h
    · next h2 =>
      split at h
      · next h3 =>
        cases h
        have step1 : Step (s, held) (s1, held) := .ret (.getEmptyPage cur 0x4000000)
          ⟨⟨1, by decide, hcur⟩, mem_dirs.mpr (by decide), mapOf_eq_none_of_tbl (hempty _)⟩ h1
        have step2 : Step (s1, held) (s2, held) := .ret (.copyMem 2 cur)
          ⟨by decide, by decide, 1, by decide, hcur⟩ h2
        have step3 : Step (s2, held) (s3, held) := .ret (.doWpPage cur 0x4000000)
          ⟨⟨1, by decide, hcur⟩, hm⟩ h3
        exact ((Relation.ReflTransGen.single step1).tail step2).tail step3
      · cases h
    · cases h
  · cases h

/-- What the two slots map after the fork, and after the write fault. -/
def writeFaultMaps (s : Mem) : Option (List (Option (Nat × Bool))) :=
  (writeFault ⟨0x4000000, 0x4000000, 0x4000000, 0x4000000⟩ s).map fun (_, s2, s3) =>
    [mapOf s2 (16, 0), mapOf s2 (32, 0), mapOf s3 (16, 0), mapOf s3 (32, 0)]

/-- The fork shares the page, the write fault gives its task a copy, and both are
counted once. -/
theorem mem_map_exact_writeFault :
    ∃ s, Reach (bootMem, fun _ => 0) (s, fun _ => 0) ∧
      mapOf s (16, 0) = some (4092, true) ∧ mapOf s (32, 0) = some (4095, false) ∧
      s.memMap (4092 - 256) = 1 ∧
      s.memMap (4095 - 256) = pteUses s 4095 + pdeUses s 4095 + 0 := by
  have hmaps : writeFaultMaps bootMem = some
      [some (4095, false), some (4095, false), some (4092, true), some (4095, false)] := by
    decide +kernel
  unfold writeFaultMaps at hmaps
  obtain ⟨⟨s1, s2, s3⟩, hrun, hlist⟩ := Option.map_eq_some_iff.mp hmaps
  simp only [List.cons.injEq, and_true] at hlist
  obtain ⟨hshared, -, hparent, hchild⟩ := hlist
  have hreach : Reach (bootMem, fun _ => 0) (s3, fun _ => 0) :=
    reach_writeFault (by constructor <;> decide) (tblOf_booted (booted_setupPaging _)) hrun
      (by rw [hshared]; simp)
  have hboot : Booted (setupPaging fun _ => 0#32) := booted_setupPaging _
  obtain ⟨hcount, hone, -, -⟩ := mem_map_exact hboot
    (show Bounds 0x400000 0x1000000 from ⟨by decide, by decide, by decide⟩) hreach
  exact ⟨s3, hreach, hparent, hchild, hone _ _ hparent (by decide) (by decide),
    (hcount 4095 (by decide) (by decide)).1⟩

end Linux011.Mm
