import Linux011.Mm.Verify

/-!
# Memory manager — sharing the pages of an executable

`try_to_share` and `share_page` of `mm/memory.c`. The routine is to find the
page-table entry of another task that runs the same program and to enter it in
the page table of the calling task. It takes one step of the walk only: what it
tests, write-protects and copies is the page-directory entry of the other task.

* `shareTable_spec` — the page table of the calling task, got when missing;
* `tryToShare_spec` — a call that shares maps the other task's page table into
  the calling task;
* `try_to_share_right` — so the routine does what it is for exactly when it
  does not get as far as sharing;
* `sharePage_spec` — `share_page` that returns 0 has changed nothing.
-/

namespace Linux011.Mm

open Linux011.Lib

/-! ## The routines -/

/-- What the routines and their caller read of a task. `ldt` is what `oom`
frees. -/
structure Sharer where
  startCode  : Nat
  endData    : Nat
  executable : Option Nat
  ldt        : Ldt

/-- The page table that `*to_page` names, got when there is none. -/
def shareTable (current : Sharer) (toPage : Nat) : MM Word := do
  let to_ ← load toPage
  if present to_ then
    return to_
  else
    let page ← getFreePage
    if page ≠ 0 then
      store toPage (entry7 page)
      return BitVec.ofNat 32 page
    else
      oom current.ldt
      return 0#32

/-- `try_to_share`. -/
def tryToShare (current : Sharer) (address : Nat) (p : Sharer) : MM Nat := do
  let fromPage := dirEntry address + dirEntry p.startCode
  let toPage := dirEntry address + dirEntry current.startCode
  let from_ ← load fromPage
  if present from_ then
    -- `from` is not used to go on to the page table: `from_page` is still the
    -- directory entry
    let physAddr ← load fromPage
    if physAddr &&& 0x41#32 ≠ 1#32 then
      return 0
    else
      let physAddr := pageAddr physAddr
      let s ← get
      if physAddr ≥ s.highMemory ∨ physAddr < lowMem then
        return 0
      else
        let to_ ← shareTable current toPage
        let toPage := pageAddr to_ / 4 + tableIndex address
        let t ← load toPage
        if present t then
          throw (.panic .shareAlreadyExists)
        else
          let w ← load fromPage
          store fromPage (w &&& ~~~2#32)
          let w ← load fromPage
          store toPage w
          let s ← get
          let nr := (physAddr - lowMem) >>> 12
          setMemMap nr ((s.memMap nr + 1) % 256)
          return 1
  else
    return 0

/-- The loop of `share_page` over the task slots `n`, …, 1. -/
def shareFrom (current : Sharer) (nr address : Nat) (task : Nat → Option Sharer) : Nat → MM Nat
  | 0 => return 0
  | n + 1 =>
    match task (n + 1) with
    | none => shareFrom current nr address task n
    | some p =>
      if nr = n + 1 ∨ p.executable ≠ current.executable then
        shareFrom current nr address task n
      else do
        let r ← tryToShare current address p
        if r ≠ 0 then
          return 1
        else
          shareFrom current nr address task n

/-- `share_page`: `current` is task `nr`, `count` the `i_count` of its
executable. -/
def sharePage (current : Sharer) (nr count address : Nat) (task : Nat → Option Sharer) : MM Nat :=
  if current.executable = none ∨ count < 2 then
    return 0
  else
    shareFrom current nr address task 63

/-! ## What the routine is for -/

/-- The page-table entry the processor finds for a linear address. -/
def pteAt (s : Mem) (address : Nat) : Option Word :=
  let d := s.phys (dirEntry address)
  if present d then some (s.phys (pageAddr d / 4 + tableIndex address)) else none

/-- Between `s` and `s'` the page at `pa` came to be mapped at `ca` as well:
it was present, clean and in main memory, it is read-only at both addresses,
its frame has one more use, and nothing else in the tables changed, a page
table for `ca` apart if there was none. -/
structure Shared (s s' : Mem) (pa ca : Nat) (w : Word) : Prop where
  found  : pteAt s pa = some w
  clean  : w &&& 0x41#32 = 1#32
  main   : lowMem ≤ pageAddr w ∧ pageAddr w < s.highMemory
  to_    : mapOf s' (cellOf ca) = some (frameOf w, false)
  from_  : mapOf s' (cellOf pa) = some (frameOf w, false)
  count  : s'.memMap (mapNr (pageAddr w)) = s.memMap (mapNr (pageAddr w)) + 1
  dir    : ∀ d ∈ dirs, d ≠ dirEntry ca ∨ present (s.phys d) = true → s'.phys d = s.phys d
  others : ∀ x, x ≠ cellOf pa → x ≠ cellOf ca → mapOf s' x = mapOf s x

/-- What a call of `try_to_share` may have done: shared the page at `pa` if it
returned 1, nothing if it returned 0. -/
def SharesRight (s : Mem) (pa ca : Nat) : EStateM.Result Stop Mem Nat → Prop
  | .ok r s' => (r = 1 → ∃ w, Shared s s' pa ca w) ∧ (r = 0 → s' = s)
  | .error _ _ => True

/-- A page table is missing in entry `d` and no page is free. -/
def NoTable (s : Mem) (d : Nat) : Prop :=
  present (s.phys d) = false ∧ ∀ i < pagingPages, s.memMap i ≠ 0

/-- The call does not get as far as sharing: the directory entry for `pa` is
absent or marked dirty, or there is no page table for `ca` and none to be had. -/
def SharesNothing (s : Mem) (pa ca : Nat) : Prop :=
  s.phys (dirEntry pa) &&& 0x41#32 ≠ 1#32 ∨ NoTable s (dirEntry ca)

/-- A task in slot `slot`: `copy_mem` sets `start_code`, and code and data fit
the slot. `do_execve` checks this on sums of 32 bits, so it holds of a program
whose header does not make them go round. -/
structure Sharer.InSlot (t : Sharer) (slot : Nat) : Prop where
  one   : 1 ≤ slot
  start : t.startCode = slot * 0x4000000
  data  : t.endData ≤ 0x4000000
  ldt   : t.ldt.InSlot slot

variable {lo hi : Nat} {s : Mem} {held : Nat → Nat}

/-- Where the routine looks for the directory entry. -/
theorem Sharer.InSlot.dir {t : Sharer} {slot address : Nat} (h : t.InSlot slot)
    (ha : address < 0x4000000) :
    dirEntry address + dirEntry t.startCode = dirEntry (t.startCode + address) ∧
      dirEntry (t.startCode + address) / 16 = slot ∧
      dirEntry (t.startCode + address) ∈ dirs ∧
      tableIndex (t.startCode + address) = tableIndex address := by
  have hone := h.one
  have hlt := h.ldt.slot_lt
  rw [h.start, mem_dirs]
  simp only [dirEntry_eq, tableIndex_eq]
  omega

/-! ## What it does -/

/-- A word whose low bits say present and clean is present. -/
theorem present_of_clean {w : Word} (h : w &&& 0x41#32 = 1#32) : present w = true := by
  have h1 : (w &&& 0x41#32).getLsbD 0 = true := by rw [h]; rfl
  rw [BitVec.getLsbD_and] at h1
  rw [present_eq]
  simpa using h1

/-- **The page table of the calling task**: the one there is, or a new empty
one; the calling task leaves when there is none and no page is free. -/
theorem shareTable_spec (A : Acc lo hi s held) {current : Sharer} {slot d : Nat}
    (hc : current.InSlot slot) (hd : d ∈ dirs) :
    wp (shareTable current d) (fun w s' =>
      Acc lo hi s' held ∧ tblOf s' d = some (frameOf w) ∧ mapOf s' = mapOf s ∧
        (∀ e, e ≠ d → e < 1024 → s'.phys e = s.phys e) ∧ ¬ NoTable s d)
      (fun e _ => e = .exit ∧ NoTable s d) s := by
  unfold shareTable
  rw [wp_bind, wp_load, wp_ite]
  refine ⟨fun hp => ?_, fun hp => ?_⟩
  · exact ⟨A, tblOf_eq_some.mpr ⟨hd, hp, rfl⟩, rfl, fun _ _ _ => rfl,
      fun h => by rw [h.1] at hp; cases hp⟩
  · rw [Bool.not_eq_true] at hp
    have hn : tblOf s d = none := (tblOf_eq_none hd).mpr hp
    have hlow := A.low
    have htop := A.top
    rw [wp_bind]
    rcases getFreePage_eq (s := s) with ⟨he, hfull⟩ | ⟨f, h1, h2, h0, he⟩
    · rw [wp_of_ok he, if_neg (by omega), wp_bind]
      refine wp_mono (oom_spec A hc.ldt hc.one (fun _ _ => False)) (fun _ _ h => h.elim) ?_
      rintro e s' ⟨rfl, -⟩
      exact ⟨rfl, hp, hfull⟩
    · rw [wp_of_ok he, if_pos (by omega)]
      have hmain : lo ≤ f ∧ f < hi := by
        by_contra hout
        exact A.other f h1 h2 (by omega) h0
      obtain ⟨A', htbl, hmap, -⟩ := newTable_spec A hd hn hmain.1 hmain.2 h0
      have hfr : frameOf (BitVec.ofNat 32 (f * 4096)) = f := by
        unfold frameOf
        rw [BitVec.toNat_ofNat, Nat.mod_eq_of_lt (by omega)]
        omega
      refine ⟨A', ?_, hmap, ?_, fun h => h.2 (f - 256) ?_ h0⟩
      · rw [htbl, Function.update_self, hfr]
      · intro e he1 he2
        dsimp only
        rw [Function.update_of_ne he1]
        exact onlyFrame_taken f e (by omega)
      · have hpages : pagingPages = 3840 := by decide
        omega

/-- **`try_to_share`** when the calling task has nothing at the address: a call
that shares enters the page table of `p` in the page table of the calling
task, as if it were a page. -/
theorem tryToShare_spec (A : Acc lo hi s held) {current p : Sharer} {m n address : Nat}
    (hc : current.InSlot m) (hp : p.InSlot n) (hne : n ≠ m) (ha : address < 0x4000000)
    (hempty : mapOf s (cellOf (current.startCode + address)) = none) :
    wp (tryToShare current address p) (fun r s' =>
      r = 0 ∧ s' = s ∧ s.phys (dirEntry (p.startCode + address)) &&& 0x41#32 ≠ 1#32 ∨
      r = 1 ∧ s.phys (dirEntry (p.startCode + address)) &&& 0x41#32 = 1#32 ∧
        ¬ NoTable s (dirEntry (current.startCode + address)) ∧
        mapOf s' (cellOf (current.startCode + address)) =
          some (frameOf (s.phys (dirEntry (p.startCode + address))), false))
      (fun e _ => e = .exit ∧ NoTable s (dirEntry (current.startCode + address))) s := by
  obtain ⟨hpd, hpn, hpm, hpt⟩ := hp.dir ha
  obtain ⟨hcd, hcn, hcm, hct⟩ := hc.dir ha
  unfold tryToShare
  simp only [hpd, hcd]
  set dp := dirEntry (p.startCode + address) with hdp
  set dc := dirEntry (current.startCode + address) with hdc
  have hdne : dp ≠ dc := by
    rintro h
    rw [h] at hpn
    omega
  have hdp' := mem_dirs.mp hpm
  have hdc' := mem_dirs.mp hcm
  rw [wp_bind, wp_load, wp_ite]
  refine ⟨fun hpres => ?_, fun hpres => ?_⟩
  · rw [wp_bind, wp_load, wp_ite]
    refine ⟨fun hdirty => ?_, fun hclean => ?_⟩
    · exact Or.inl ⟨rfl, rfl, hdirty⟩
    · rw [not_not] at hclean
      set t := frameOf (s.phys dp) with ht
      have htbl : tblOf s dp = some t := tblOf_eq_some.mpr ⟨hpm, hpres, rfl⟩
      obtain ⟨hlo, hhi⟩ := A.tbl_main htbl
      have hlow := A.low
      have hhigh := A.high
      rw [wp_bind, wp_get, wp_ite]
      -- a page table lies in main memory
      refine ⟨fun hout => ?_, fun _ => ?_⟩
      · rw [pageAddr_eq] at hout
        unfold lowMem at hout
        omega
      · rw [wp_bind]
        refine wp_mono (shareTable_spec A hc hcm) ?_ (fun _ _ h => h)
        rintro to_ s1 ⟨A1, htbl1, hmap1, hphys1, hgot⟩
        obtain ⟨hlo1, hhi1⟩ := A1.tbl_main htbl1
        set tc := frameOf to_ with htc
        have htable : pageAddr to_ / 4 = tc * 1024 := pageAddr_div _
        have hj := tableIndex_lt address
        have hent := mapOf_of_tbl htbl1 hj
        have hempty1 : mapOf s1 (dc, tableIndex address) = none := by
          rw [hmap1, ← hct]
          exact hempty
        rw [htable, wp_bind, wp_load, wp_ite]
        refine ⟨fun hex => ?_, fun _ => ?_⟩
        · rw [hempty1, entryOf, if_pos hex] at hent
          cases hent
        · simp only [wp_bind, wp_load, wp_store, wp_get, wp_setMemMap, wp_pure,
            Function.update_self]
          refine Or.inr ⟨trivial, hclean, hgot, ?_⟩
          -- the entry copied is the directory entry of `p`
          have hw : s1.phys dp = s.phys dp := hphys1 dp hdne hdp'.2
          have hself : (tc * 1024 + tableIndex address) ≠ dc := by omega
          have htblc := tblOf_eq_some.mp htbl1
          unfold cellOf
          rw [← hdc, hct]
          rw [mapOf_of_tbl (t := tc) ?_ hj]
          · simp only [Function.update_self, entryOf, hw, present_and_not_two, hpres, if_true,
              frameOf_and_not_two, writable_and_not_two, ht]
          · refine tblOf_eq_some.mpr ⟨hcm, ?_, ?_⟩
            · dsimp only
              rw [Function.update_of_ne hself.symm, Function.update_of_ne hdne.symm]
              exact htblc.2.1
            · dsimp only
              rw [Function.update_of_ne hself.symm, Function.update_of_ne hdne.symm]
              exact htblc.2.2
  · refine Or.inl ⟨rfl, rfl, fun h => hpres (present_of_clean h)⟩

theorem shareFrom_spec (A : Acc lo hi s held) {current : Sharer} {nr address : Nat}
    {task : Nat → Option Sharer} (hc : current.InSlot nr)
    (htask : ∀ k p, 1 ≤ k → task k = some p → p.InSlot k) (ha : address < 0x4000000)
    (hempty : mapOf s (cellOf (current.startCode + address)) = none) (n : Nat) :
    wp (shareFrom current nr address task n) (fun r s' => r = 0 → s' = s)
      (fun e _ => e = .exit) s := by
  induction n with
  | zero => exact fun _ => rfl
  | succ n ih =>
    rw [shareFrom]
    split
    · exact ih
    · next p hp =>
      rw [wp_ite]
      refine ⟨fun _ => ih, fun hother => ?_⟩
      rw [wp_bind]
      refine wp_mono (tryToShare_spec A hc (htask (n + 1) p (by omega) hp) (by tauto) ha hempty)
        ?_ (fun _ _ h => h.1)
      rintro r s' (⟨rfl, rfl, -⟩ | ⟨rfl, -⟩)
      · exact ih
      · exact fun h => absurd h (by decide)

/-- **`share_page`** that finds nothing to share has changed nothing. -/
theorem sharePage_spec (A : Acc lo hi s held) {current : Sharer} {nr count address : Nat}
    {task : Nat → Option Sharer} (hc : current.InSlot nr)
    (htask : ∀ k p, 1 ≤ k → task k = some p → p.InSlot k) (ha : address < current.endData)
    (hempty : mapOf s (cellOf (current.startCode + address)) = none) :
    wp (sharePage current nr count address task) (fun r s' => r = 0 → s' = s)
      (fun e _ => e = .exit) s := by
  unfold sharePage
  rw [wp_ite]
  exact ⟨fun _ _ => rfl, fun _ =>
    shareFrom_spec A hc htask (Nat.lt_of_lt_of_le ha hc.data) hempty 63⟩

/-! ## When it does what it is for -/

/-- The page a task sees at an address is not the page table of another
entry. -/
theorem Acc.pteAt_frame (A : Acc lo hi s held) {address d t : Nat} {w : Word}
    (hd : dirEntry address ∈ dirs) (hw : pteAt s address = some w) (hp : present w = true)
    (ht : tblOf s d = some t) : frameOf w ≠ t := by
  rintro rfl
  unfold pteAt at hw
  dsimp only at hw
  split at hw
  · next hpd =>
    have htbl : tblOf s (dirEntry address) = some (frameOf (s.phys (dirEntry address))) :=
      tblOf_eq_some.mpr ⟨hd, hpd, rfl⟩
    have hm := mapOf_of_tbl htbl (tableIndex_lt address)
    have htable := pageAddr_div (s.phys (dirEntry address))
    rw [htable] at hw
    rw [Option.some.inj hw, entryOf, if_pos hp] at hm
    exact A.tbl_not_mapped ht hm
  · cases hw

/-- A call that gets as far as sharing has mapped a page table. -/
theorem not_sharesRight (A : Acc lo hi s held) {current p : Sharer} {m n address : Nat}
    (hc : current.InSlot m) (hp : p.InSlot n) (hne : n ≠ m) (ha : address < 0x4000000)
    (hempty : mapOf s (cellOf (current.startCode + address)) = none)
    (hgo : ¬ SharesNothing s (p.startCode + address) (current.startCode + address)) :
    ¬ SharesRight s (p.startCode + address) (current.startCode + address)
        (tryToShare current address p s) := by
  have hspec := tryToShare_spec A hc hp hne ha hempty
  unfold wp at hspec
  intro hright
  cases hrun : tryToShare current address p s with
  | error e s' =>
    rw [hrun] at hspec
    exact hgo (Or.inr hspec.2)
  | ok r s' =>
    rw [hrun] at hspec hright
    rcases hspec with ⟨-, -, hdirty⟩ | ⟨hr, hclean, -, hto⟩
    · exact hgo (Or.inl hdirty)
    · obtain ⟨-, -, hpm, -⟩ := hp.dir ha
      have htbl := tblOf_eq_some.mpr ⟨hpm, present_of_clean hclean, rfl⟩
      obtain ⟨w, hw⟩ := hright.1 hr
      have hto' := hw.to_
      rw [hto] at hto'
      exact A.pteAt_frame hpm hw.found (present_of_clean hw.clean) htbl
        (congrArg Prod.fst (Option.some.inj hto')).symm

/-- **`try_to_share` shares the right page only when it shares none.** For two
tasks in different slots and an address at which the calling task has no page,
a call that returns 1 has mapped the page and a call that returns 0 has left
everything alone exactly when the call does not get as far as sharing. -/
theorem try_to_share_right (A : Acc lo hi s held) {current p : Sharer} {m n address : Nat}
    (hc : current.InSlot m) (hp : p.InSlot n) (hne : n ≠ m)
    (_hexe : p.executable = current.executable) (_halign : address % 4096 = 0)
    (ha : address < current.endData)
    (hempty : mapOf s (cellOf (current.startCode + address)) = none) :
    SharesRight s (p.startCode + address) (current.startCode + address)
        (tryToShare current address p s) ↔
      SharesNothing s (p.startCode + address) (current.startCode + address) := by
  have ha' : address < 0x4000000 := Nat.lt_of_lt_of_le ha hc.data
  constructor
  · intro hright
    by_contra hgo
    exact not_sharesRight A hc hp hne ha' hempty hgo hright
  · intro hno
    have hspec := tryToShare_spec A hc hp hne ha' hempty
    unfold wp at hspec
    cases hrun : tryToShare current address p s with
    | error e s' => exact trivial
    | ok r s' =>
      rw [hrun] at hspec
      rcases hspec with ⟨rfl, rfl, -⟩ | ⟨-, hclean, hgot, -⟩
      · exact ⟨fun h => absurd h (by decide), fun _ => rfl⟩
      · rcases hno with hdirty | hfull
        · exact absurd hclean hdirty
        · exact absurd hfull hgot

/-- A task in slot `slot` that runs the program of inode 7. -/
def sharer (slot : Nat) : Sharer where
  startCode := slot * 0x4000000
  endData := 0x2000
  executable := some 7
  ldt := ⟨slot * 0x4000000, slot * 0x4000000, 0x2000, 0x4000000⟩

theorem inSlot_sharer {slot : Nat} (h1 : 1 ≤ slot) (h : slot < 64) : (sharer slot).InSlot slot where
  one := h1
  start := rfl
  data := by
    have hdata : 0x2000 ≤ 0x4000000 := by decide
    exact hdata
  ldt := ⟨h, rfl, rfl, (by decide : (0x2000 : Nat) ≤ 0x4000000), Nat.le_refl 0x4000000,
    fun h0 => absurd h0 (by omega)⟩

/-- 16 MB of memory; the task in slot 1 has touched its first page. -/
def onePage : Mem :=
  match getEmptyPage (sharer 1).ldt 0x4000000
      (memInit (setupPaging fun _ => 0#32) 0x400000 0x1000000) with
  | .ok _ s => s
  | .error _ s => s

theorem acc_onePage :
    Acc (firstFrame 0x400000) (endFrame 0x400000 0x1000000) onePage (fun _ => 0) := by
  have hm : Bounds 0x400000 0x1000000 := ⟨by decide, by decide, by decide⟩
  have hslot : (sharer 1).InSlot 1 := inSlot_sharer (by decide) (by decide)
  have hd : dirEntry 0x4000000 ∈ dirs := mem_dirs.mpr (by decide)
  have h := getEmptyPage_spec (acc_memInit (booted_setupPaging fun _ => 0#32) hm) hslot.ldt
    (by decide) hd (mapOf_eq_none_of_tbl (tblOf_booted (booted_setupPaging _) _))
  unfold wp at h
  unfold onePage
  split at h
  · next heq => rw [heq]; exact h.1
  · next heq => rw [heq]; exact h.2.1

theorem onePage_shares : mapOf onePage (cellOf ((sharer 2).startCode + 0)) = none ∧
    ¬ SharesNothing onePage ((sharer 1).startCode + 0) ((sharer 2).startCode + 0) := by
  constructor
  · refine mapOf_eq_none_of_tbl ((tblOf_eq_none (mem_dirs.mpr (by decide))).mpr ?_)
    decide +kernel
  · rintro (h | h)
    · revert h
      decide +kernel
    · exact h.2 3000 (by decide) (by decide +kernel)

/-- The task in slot 2 shares the page at offset 0 with that in slot 1: it gets
the page table of that task for a page. -/
theorem try_to_share_wrong :
    Acc (firstFrame 0x400000) (endFrame 0x400000 0x1000000) onePage (fun _ => 0) ∧
    mapOf onePage (cellOf ((sharer 2).startCode + 0)) = none ∧
    ¬ SharesRight onePage ((sharer 1).startCode + 0) ((sharer 2).startCode + 0)
      (tryToShare (sharer 2) 0 (sharer 1) onePage) :=
  ⟨acc_onePage, onePage_shares.1, not_sharesRight acc_onePage
    (inSlot_sharer (by decide) (by decide)) (inSlot_sharer (by decide) (by decide)) (by decide)
    (by decide) onePage_shares.1 onePage_shares.2⟩

/-- The same call, through the theorem. -/
theorem try_to_share_right_onePage :
    (sharer 1).executable = (sharer 2).executable ∧ 0 < (sharer 2).endData ∧
    mapOf onePage (cellOf ((sharer 2).startCode + 0)) = none ∧
    (SharesRight onePage ((sharer 1).startCode + 0) ((sharer 2).startCode + 0)
        (tryToShare (sharer 2) 0 (sharer 1) onePage) ↔
      SharesNothing onePage ((sharer 1).startCode + 0) ((sharer 2).startCode + 0)) :=
  ⟨rfl, by decide, onePage_shares.1, try_to_share_right acc_onePage
    (inSlot_sharer (by decide) (by decide)) (inSlot_sharer (by decide) (by decide)) (by decide)
    rfl rfl (by decide) onePage_shares.1⟩

end Linux011.Mm
