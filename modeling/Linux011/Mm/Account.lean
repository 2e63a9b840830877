import Linux011.Mm.Entries

/-!
# Memory manager — the routines keep the accounts

`Acc lo hi s held` says that the machine state `s` keeps the discipline of
`Mm/Space.lean` for the main memory frames `lo ≤ f < hi`, and what else the
routines rely on. One specification per routine: it keeps `Acc`, and what it
does to the page tables (`tblOf`) and to what the tasks see (`views`).
-/

namespace Linux011.Mm

open Linux011.Lib

/-- The state of the machine keeps the accounts. -/
structure Acc (lo hi : Nat) (s : Mem) (held : Nat → Nat) : Prop where
  low   : 256 ≤ lo
  top   : hi ≤ 4096
  high  : hi * 4096 ≤ s.highMemory
  inv   : (space s held).Inv lo hi
  /-- Frames that are not main memory are marked used. -/
  other : ∀ f, 256 ≤ f → f < 4096 → (f < lo ∨ hi ≤ f) → s.memMap (f - 256) ≠ 0
  /-- Slot 0 begins with the first page table of the kernel, whose first 160
  entries lie below 1 MB. -/
  boot  : frameOf (s.phys 0) = 1 ∧ ∀ j < 160, frameOf (s.phys (1024 + j)) < 256

variable {lo hi : Nat} {s : Mem} {held : Nat → Nat}

/-! ## Reading the accounts -/

theorem space_cnt {f : Nat} (hf : 256 ≤ f) : (space s held).cnt f = s.memMap (f - 256) :=
  if_pos hf

theorem Acc.tbl_main (A : Acc lo hi s held) {d t : Nat} (h : tblOf s d = some t) :
    lo ≤ t ∧ t < hi :=
  A.inv.tblMain d (tblOf_eq_some.mp h).1 t h

theorem Acc.tbl_ne_zero (A : Acc lo hi s held) {d t : Nat} (h : tblOf s d = some t) : t ≠ 0 := by
  have := A.tbl_main h
  have := A.low
  omega

theorem Acc.tbl_inj (A : Acc lo hi s held) {d t : Nat} (h : tblOf s d = some t) :
    ∀ e, tblOf s e = some t → e = d :=
  fun _ he => A.inv.tbl_inj (tblOf_eq_some.mp he).1 (tblOf_eq_some.mp h).1 he h

theorem Acc.tbl_not_mapped (A : Acc lo hi s held) {d t : Nat} (h : tblOf s d = some t)
    {x : Nat × Nat} {w : Bool} : mapOf s x ≠ some (t, w) := by
  intro hm
  exact A.inv.tbl_not_mapped (tblOf_eq_some.mp h).1 h (mem_cells_of_mapOf hm) hm

/-- A frame with count 0 is neither a page table nor mapped. -/
theorem Acc.free_unused (A : Acc lo hi s held) {f : Nat} (hlo : lo ≤ f) (hhi : f < hi)
    (h0 : s.memMap (f - 256) = 0) :
    (∀ d, tblOf s d ≠ some f) ∧ (∀ x w, mapOf s x ≠ some (f, w)) ∧ held f = 0 := by
  have hc : (space s held).cnt f = 0 := by
    rw [space_cnt (by have := A.low; omega)]
    exact h0
  obtain ⟨hm, ht, hh⟩ := A.inv.unused hlo hhi hc
  refine ⟨?_, ?_, hh⟩
  · intro d hd
    have := Space.tblRefs_pos (a := space s held) (tblOf_eq_some.mp hd).1 hd
    omega
  · intro x w hx
    have := Space.mapRefs_pos (a := space s held) (mem_cells_of_mapOf hx) hx
    omega

/-- The count of a mapped page is positive and does not wrap. -/
theorem Acc.cnt_mapped (A : Acc lo hi s held) {x : Nat × Nat} {f : Nat} {w : Bool}
    (h : mapOf s x = some (f, w)) (hf : 256 ≤ f) :
    lo ≤ f ∧ f < hi ∧ 0 < s.memMap (f - 256) ∧ s.memMap (f - 256) ≤ 64 := by
  have hx := mem_cells_of_mapOf h
  have hmain : lo ≤ f ∧ f < hi := by
    rcases A.inv.mapMain x hx f w h with hl | hm
    · omega
    · exact hm
  have hcount := A.inv.count f hmain.1 hmain.2
  have hle := A.inv.cnt_le A.low hmain.1 hmain.2
  have hpos := Space.mapRefs_pos (a := space s held) hx h
  rw [space_cnt hf] at hcount hle
  exact ⟨hmain.1, hmain.2, by omega, hle⟩

/-! ## `get_free_page` -/

theorem scanFree_some {m : Nat → Nat} {n i : Nat} (h : scanFree m n = some i) : i < n ∧ m i = 0 := by
  induction n with
  | zero => cases h
  | succ n ih =>
    rw [scanFree] at h
    split at h
    · next h0 => cases h; exact ⟨by omega, h0⟩
    · have := ih h
      exact ⟨by omega, this.2⟩

theorem scanFree_none {m : Nat → Nat} {n : Nat} (h : scanFree m n = none) : ∀ i < n, m i ≠ 0 := by
  induction n with
  | zero => intro i hi; omega
  | succ n ih =>
    rw [scanFree] at h
    split at h
    · cases h
    · next h0 =>
      intro i hi
      by_cases hin : i = n
      · subst hin; exact h0
      · exact ih h i (by omega)

/-- The state after `get_free_page` handed out frame `f`. -/
def taken (s : Mem) (f : Nat) : Mem :=
  { s with
    memMap := Function.update s.memMap (f - 256) 1
    phys := fun a => if a / 1024 = f then 0#32 else s.phys a }

theorem onlyFrame_taken (f : Nat) : OnlyFrame f s (taken s f) := by
  intro a ha
  exact if_neg ha

/-- The page is chosen by `mem_map` alone. -/
theorem getFreePage_scan (s : Mem) : getFreePage s =
    match scanFree s.memMap pagingPages with
    | none => .ok 0 s
    | some i => .ok ((i + 256) * 4096) (taken s (i + 256)) := by
  show (match scanFree s.memMap pagingPages with
    | none => pure 0
    | some i => do
      setMemMap i 1
      modify fun s => { s with
        phys := fun a => if a / 1024 = ((i <<< 12) + lowMem) / 4096 then 0#32 else s.phys a }
      return (i <<< 12) + lowMem : MM Nat) s = _
  cases scanFree s.memMap pagingPages with
  | none => rfl
  | some i =>
    have hpage : (i <<< 12) + lowMem = (i + 256) * 4096 := by
      rw [Nat.shiftLeft_eq]
      unfold lowMem
      omega
    have hframe : (i + 256) * 4096 / 4096 = i + 256 := by omega
    simp only [hpage, hframe, taken, Nat.add_sub_cancel]
    rfl

/-- `get_free_page` returns 0 and changes nothing when no page is free, or
hands out a cleared frame whose count was 0. -/
theorem getFreePage_eq :
    (getFreePage s = .ok 0 s ∧ ∀ i < pagingPages, s.memMap i ≠ 0) ∨
    ∃ f, 256 ≤ f ∧ f < 4096 ∧ s.memMap (f - 256) = 0 ∧
      getFreePage s = .ok (f * 4096) (taken s f) := by
  rw [getFreePage_scan]
  cases hscan : scanFree s.memMap pagingPages with
  | none => exact Or.inl ⟨rfl, scanFree_none hscan⟩
  | some i =>
    obtain ⟨hi, h0⟩ := scanFree_some hscan
    have hpp : pagingPages = 3840 := by decide
    exact Or.inr ⟨i + 256, by omega, by omega, by simpa using h0, rfl⟩

/-- The counts, after one byte of `mem_map` was set. -/
theorem cnt_setMemMap (m : Nat → Nat) {f : Nat} (hf : 256 ≤ f) (n : Nat) :
    (fun g => if 256 ≤ g then Function.update m (f - 256) n (g - 256) else 0) =
      Function.update (fun g => if 256 ≤ g then m (g - 256) else 0) f n := by
  funext g
  by_cases hg : g = f
  · subst hg
    rw [if_pos hf, Function.update_self, Function.update_self]
  · rw [Function.update_of_ne hg]
    by_cases hg' : 256 ≤ g
    · rw [if_pos hg', if_pos hg', Function.update_of_ne (by omega)]
    · rw [if_neg hg', if_neg hg']

theorem acc_taken (A : Acc lo hi s held) {f : Nat} (hlo : lo ≤ f) (hhi : f < hi)
    (h0 : s.memMap (f - 256) = 0) :
    Acc lo hi (taken s f) (Function.update held f 1) ∧ tblOf (taken s f) = tblOf s ∧
      mapOf (taken s f) = mapOf s ∧ views (taken s f) = views s := by
  obtain ⟨hnt, hnm, -⟩ := A.free_unused hlo hhi h0
  have hlow := A.low
  have hof := onlyFrame_taken (s := s) f
  have htbl := tblOf_otherFrame hof (by omega)
  have hmap := mapOf_otherFrame hof (by omega) hnt
  refine ⟨⟨A.low, A.top, A.high, ?_, ?_, ?_⟩, htbl, hmap, ?_⟩
  · have hsp : space (taken s f) (Function.update held f 1) = (space s held).hold f := by
      unfold space Space.hold
      rw [htbl, hmap]
      simp only [taken, cnt_setMemMap s.memMap (show 256 ≤ f by omega)]
    rw [hsp]
    exact Space.inv_hold A.inv hlo hhi (by rw [space_cnt (by omega)]; exact h0)
  · intro g hg hg' hout
    simp only [taken]
    rw [Function.update_of_ne (by omega)]
    exact A.other g hg hg' hout
  · refine ⟨?_, ?_⟩
    · rw [hof 0 (by omega)]; exact A.boot.1
    · intro j hj
      rw [hof (1024 + j) (by omega)]
      exact A.boot.2 j hj
  · funext x
    exact views_eq_of_frame hof (congrFun hmap x) (fun w h => absurd h (hnm x w))

/-! ## How many pages are free -/

/-- The frames of main memory that nobody uses. -/
def freeFrames (lo hi : Nat) (s : Mem) : Nat :=
  ((Finset.Ico lo hi).filter fun f => s.memMap (f - 256) = 0).card

/-- If only the frames in `N` are used up, no more pages are gone than `N` has. -/
theorem freeFrames_le {s' : Mem} (N : Finset Nat)
    (h : ∀ f, lo ≤ f → f < hi → s.memMap (f - 256) = 0 → f ∉ N → s'.memMap (f - 256) = 0) :
    freeFrames lo hi s ≤ freeFrames lo hi s' + N.card := by
  unfold freeFrames
  refine Nat.le_trans (Finset.card_le_card ?_) (Finset.card_union_le _ _)
  intro f hf
  obtain ⟨hmain, h0⟩ := Finset.mem_filter.mp hf
  obtain ⟨hlo, hhi⟩ := Finset.mem_Ico.mp hmain
  by_cases hN : f ∈ N
  · exact Finset.mem_union_right _ hN
  · exact Finset.mem_union_left _ (Finset.mem_filter.mpr ⟨hmain, h f hlo hhi h0 hN⟩)

/-- The accounts say which frames are free: those that no entry names and nobody holds. -/
theorem Acc.free_of_unused (A : Acc lo hi s held) {f : Nat} (hlo : lo ≤ f) (hhi : f < hi)
    (ht : ∀ d, tblOf s d ≠ some f) (hm : ∀ x, (mapOf s x).map Prod.fst ≠ some f)
    (hh : held f = 0) : s.memMap (f - 256) = 0 := by
  have hlow := A.low
  have hcount := A.inv.count f hlo hhi
  have hmap : (space s held).mapRefs f = 0 := refs_eq_zero_iff.mpr fun x _ => hm x
  have htbl : (space s held).tblRefs f = 0 := refs_eq_zero_iff.mpr fun d _ => ht d
  have hheld : (space s held).held f = 0 := hh
  rw [space_cnt (by omega), hmap, htbl, hheld] at hcount
  exact hcount

/-- What is used after a routine was used before it, or is in `N`: as many pages are
gone at most. -/
theorem Acc.freeFrames_le (A : Acc lo hi s held) {s' : Mem} (A' : Acc lo hi s' held)
    (N : Finset Nat)
    (htbl : ∀ d f, tblOf s' d = some f → f ∉ N → tblOf s d = some f)
    (hmap : ∀ x f, (mapOf s' x).map Prod.fst = some f → f ∉ N →
      ∃ y, (mapOf s y).map Prod.fst = some f) :
    freeFrames lo hi s ≤ freeFrames lo hi s' + N.card := by
  refine Mm.freeFrames_le N ?_
  intro f hlo hhi h0 hN
  obtain ⟨hnt, hnm, hh⟩ := A.free_unused hlo hhi h0
  refine A'.free_of_unused hlo hhi (fun d hd => hnt d (htbl d f hd hN)) ?_ hh
  intro x hx
  obtain ⟨y, hy⟩ := hmap x f hx hN
  obtain ⟨⟨g, w⟩, hg, rfl⟩ := Option.map_eq_some_iff.mp hy
  exact hnm y w hg

theorem freeFrames_taken (hlow : 256 ≤ lo) {f : Nat} (hf : 256 ≤ f) :
    freeFrames lo hi s ≤ freeFrames lo hi (taken s f) + 1 := by
  refine freeFrames_le {f} ?_
  intro g hlo _ h0 hg
  have hne : g ≠ f := fun h => hg (Finset.mem_singleton.mpr h)
  unfold taken
  dsimp only
  rw [Function.update_of_ne (by omega)]
  exact h0

/-- **`get_free_page`**: 0 and nothing changed when every page is in use, or a
cleared frame of main memory that nobody used and the kernel now holds. -/
theorem getFreePage_spec (A : Acc lo hi s held) :
    wp getFreePage (fun r s' =>
      (r = 0 ∧ s' = s ∧ freeFrames lo hi s = 0) ∨
      ∃ f, r = f * 4096 ∧ lo ≤ f ∧ f < hi ∧ s.memMap (f - 256) = 0 ∧ s' = taken s f ∧
        Acc lo hi s' (Function.update held f 1) ∧ tblOf s' = tblOf s ∧ mapOf s' = mapOf s ∧
        views s' = views s)
      (fun _ _ => False) s := by
  unfold wp
  have hlow := A.low
  have htop := A.top
  rcases getFreePage_eq (s := s) with ⟨he, hall⟩ | ⟨f, h1, h2, h0, he⟩
  · rw [he]
    refine Or.inl ⟨rfl, rfl, Finset.card_eq_zero.mpr (Finset.filter_eq_empty_iff.mpr ?_)⟩
    intro f hf
    obtain ⟨hlo, hhi⟩ := Finset.mem_Ico.mp hf
    have hpp : pagingPages = 3840 := by decide
    exact hall (f - 256) (by omega)
  · rw [he]
    have hmain : lo ≤ f ∧ f < hi := by
      by_contra hout
      exact A.other f h1 h2 (by omega) h0
    obtain ⟨hacc, htbl, hmap, hview⟩ := acc_taken A hmain.1 hmain.2 h0
    exact Or.inr ⟨f, rfl, hmain.1, hmain.2, h0, rfl, hacc, htbl, hmap, hview⟩

/-! ## `free_page` -/

/-- The rest of `Acc` follows from the discipline when the write stayed in
main memory and the directory entries of the task slots. -/
theorem Acc.move (A : Acc lo hi s held) {s' : Mem} {held' : Nat → Nat}
    (hhigh : s'.highMemory = s.highMemory)
    (hmem : ∀ f, 256 ≤ f → f < 4096 → (f < lo ∨ hi ≤ f) →
      s'.memMap (f - 256) = s.memMap (f - 256))
    (hphys : ∀ a, a = 0 ∨ a / 1024 = 1 → s'.phys a = s.phys a)
    (hinv : (space s' held').Inv lo hi) : Acc lo hi s' held' := by
  refine ⟨A.low, A.top, hhigh.symm ▸ A.high, hinv, ?_, ?_, ?_⟩
  · intro f h1 h2 hout
    rw [hmem f h1 h2 hout]
    exact A.other f h1 h2 hout
  · rw [hphys 0 (Or.inl rfl)]
    exact A.boot.1
  · intro j hj
    rw [hphys (1024 + j) (Or.inr (by omega))]
    exact A.boot.2 j hj

theorem freePage_low {f : Nat} (hf : f < 256) : freePage (f * 4096) s = .ok () s := by
  unfold freePage
  rw [if_pos (by unfold lowMem; omega)]
  rfl

/-- `free_page` of a page in use takes one off its count. -/
theorem freePage_main {f : Nat} (hf : 256 ≤ f) (hhigh : f * 4096 < s.highMemory)
    (hpos : 0 < s.memMap (f - 256)) (hle : s.memMap (f - 256) ≤ 255) :
    freePage (f * 4096) s =
      .ok () { s with memMap := Function.update s.memMap (f - 256) (s.memMap (f - 256) - 1) } := by
  have hnr : (f * 4096 - lowMem) >>> 12 = f - 256 := by
    rw [Nat.shiftRight_eq_div_pow]
    unfold lowMem
    omega
  have hdec : (s.memMap (f - 256) + 255) % 256 = s.memMap (f - 256) - 1 := by omega
  unfold freePage
  rw [if_neg (by unfold lowMem; omega)]
  show (if f * 4096 ≥ s.highMemory then _ else _ : MM Unit) s = _
  rw [if_neg (by omega), hnr, hdec]
  show (if s.memMap (f - 256) ≠ 0 then _ else _ : MM Unit) _ = _
  rw [if_pos (by omega)]
  rfl

/-! ## `free_page_tables` -/

/-- One entry of a page table is given up. -/
theorem freeEntry_spec (A : Acc lo hi s held) {d j t : Nat} (ht : tblOf s d = some t)
    (hj : j < 1024) :
    wp (freeEntry (t * 1024) j) (fun _ s' =>
      Acc lo hi s' held ∧ tblOf s' = tblOf s ∧ mapOf s' = Function.update (mapOf s) (d, j) none ∧
        views s' = Function.update (views s) (d, j) none)
      (fun _ _ => False) s := by
  have hmain := A.tbl_main ht
  have hlow := A.low
  have ht0 := A.tbl_ne_zero ht
  have hinj := A.tbl_inj ht
  have hcell : (d, j) ∈ cells := mem_cells.mpr ⟨(tblOf_eq_some.mp ht).1, hj⟩
  have hm := mapOf_of_tbl ht hj
  -- the state left behind, whatever became of the counts
  have hpost : ∀ m', (∀ f, 256 ≤ f → f < 4096 → (f < lo ∨ hi ≤ f) → m' (f - 256) = s.memMap (f - 256)) →
      (Space.mk (tblOf s) (Function.update (mapOf s) (d, j) none)
        (fun f => if 256 ≤ f then m' (f - 256) else 0) held).Inv lo hi →
      let s' : Mem := ⟨Function.update s.phys (t * 1024 + j) 0#32, m', s.highMemory⟩
      Acc lo hi s' held ∧ tblOf s' = tblOf s ∧ mapOf s' = Function.update (mapOf s) (d, j) none ∧
        views s' = Function.update (views s) (d, j) none := by
    intro m' hm' hinv s'
    have hph : s'.phys = Function.update s.phys (t * 1024 + j) 0#32 := rfl
    have htbl := tblOf_otherFrame (onlyFrame_store hj hph) ht0
    have hmap := mapOf_storePte hph ht hj ht0 hinj
    have hview := views_storePte hph ht hj ht0 hinj (fun x b => A.tbl_not_mapped ht)
      (show frameOf 0#32 ≠ t from Ne.symm ht0)
    refine ⟨A.move rfl hm' ?_ ?_, htbl, hmap, hview⟩
    · intro a ha
      exact onlyFrame_store hj hph a (by omega)
    · unfold space
      rw [htbl, hmap]
      exact hinv
  unfold freeEntry
  simp only [wp_bind, wp_load]
  rw [wp_ite]
  constructor
  · -- a present entry: its page loses one use
    intro hp
    rw [entryOf, if_pos hp] at hm
    rw [pageAddr_eq]
    by_cases hf : 256 ≤ frameOf (s.phys (t * 1024 + j))
    · obtain ⟨h1, h2, h3, h4⟩ := A.cnt_mapped hm hf
      have hfree := freePage_main (s := s) hf (by have := A.high; omega) h3 (by omega)
      rw [wp_bind, wp_of_ok hfree]
      refine hpost _ ?_ ?_
      · intro f hf1 hf2 hout
        dsimp only
        rw [Function.update_of_ne (by omega)]
      · have hinv := Space.inv_unmap hlow A.inv hcell hm
        unfold Space.unmap space at hinv
        rw [if_pos hf] at hinv
        rw [cnt_setMemMap s.memMap hf]
        simp only [if_pos hf] at hinv
        exact hinv
    · have hfree := freePage_low (s := s) (Nat.lt_of_not_le hf)
      rw [wp_bind, wp_of_ok hfree]
      refine hpost _ (fun _ _ _ _ => rfl) ?_
      have hinv := Space.inv_unmap hlow A.inv hcell hm
      unfold Space.unmap space at hinv
      rw [if_neg hf] at hinv
      exact hinv
  · -- an absent entry is cleared
    intro hp
    rw [entryOf, if_neg hp] at hm
    refine hpost _ (fun _ _ _ _ => rfl) ?_
    have hsame : Function.update (mapOf s) (d, j) none = mapOf s := by
      rw [← hm, Function.update_eq_self]
    rw [hsame]
    exact A.inv

/-- A page table is walked, given up and its directory entry cleared. -/
theorem freeDir_spec (A : Acc lo hi s held) {d : Nat} (hd : d ∈ dirs) :
    wp (freeDir d) (fun _ s' =>
      Acc lo hi s' held ∧ tblOf s' = Function.update (tblOf s) d none ∧
        (∀ x, mapOf s' x = if x.1 = d then none else mapOf s x) ∧
        ∀ x, views s' x = if x.1 = d then none else views s x)
      (fun _ _ => False) s := by
  unfold freeDir
  simp only [wp_bind, wp_load]
  rw [wp_ite]
  constructor
  · intro hp
    have ht : tblOf s d = some (frameOf (s.phys d)) := tblOf_eq_some.mpr ⟨hd, hp, rfl⟩
    set t := frameOf (s.phys d) with htdef
    have htable : pageAddr (s.phys d) / 4 = t * 1024 := pageAddr_div _
    -- the entries below `n` are gone, all others as before
    let I : Nat → Mem → Prop := fun n s' =>
      Acc lo hi s' held ∧ tblOf s' = tblOf s ∧
        (∀ x, mapOf s' x = if x.1 = d ∧ x.2 < n then none else mapOf s x) ∧
        ∀ x, views s' x = if x.1 = d ∧ x.2 < n then none else views s x
    have hstep : ∀ n s', n < 1024 → I n s' →
        wp (freeEntry (t * 1024) n) (fun _ => I (n + 1)) (fun _ _ => False) s' := by
      rintro n s' hn ⟨A', htbl, hmap, hview⟩
      refine wp_mono (freeEntry_spec A' (by rw [htbl]; exact ht) hn) ?_ (fun _ _ h => h)
      rintro _ s'' ⟨A'', htbl', hmap', hview'⟩
      have hcond : ∀ x : Nat × Nat, x ≠ (d, n) → ((x.1 = d ∧ x.2 < n + 1) ↔ (x.1 = d ∧ x.2 < n)) := by
        intro x hx
        constructor
        · rintro ⟨h1, h2⟩
          refine ⟨h1, ?_⟩
          by_contra hge
          exact hx (Prod.ext h1 (by omega))
        · rintro ⟨h1, h2⟩
          exact ⟨h1, by omega⟩
      refine ⟨A'', htbl'.trans htbl, ?_, ?_⟩
      · intro x
        by_cases hx : x = (d, n)
        · subst hx
          rw [hmap', Function.update_self, if_pos ⟨rfl, by omega⟩]
        · rw [hmap', Function.update_of_ne hx, hmap]
          simp only [hcond x hx]
      · intro x
        by_cases hx : x = (d, n)
        · subst hx
          rw [hview', Function.update_self, if_pos ⟨rfl, by omega⟩]
        · rw [hview', Function.update_of_ne hx, hview]
          simp only [hcond x hx]
    have hloop := wp_upTo (E := fun _ _ => False) (n := 1024) hstep
      (show I 0 s from ⟨A, rfl, fun x => by simp, fun x => by simp⟩)
    rw [htable]
    simp only [wp_bind, wp_load, wp_store]
    refine wp_mono hloop ?_ (fun _ _ h => h)
    rintro _ s' ⟨A', htbl, hmap, hview⟩
    -- the table itself, now empty
    have ht' : tblOf s' d = some t := by rw [htbl]; exact ht
    have hfr : frameOf (s'.phys d) = t := (tblOf_eq_some.mp ht').2.2
    obtain ⟨hlo, hhi, hh, -, -, hc⟩ := A'.inv.of_tbl hd ht'
    have hlow := A.low
    rw [space_cnt (by omega)] at hc
    have hh' : held t = 0 := hh
    have hfree := freePage_main (s := s') (f := t) (by omega) (by have := A'.high; omega) (by omega)
      (by omega)
    rw [pageAddr_eq, hfr, wp_of_ok hfree]
    show _ ∧ _ ∧ _ ∧ _
    set s'' : Mem := { phys := Function.update s'.phys d 0#32
                       memMap := Function.update s'.memMap (t - 256) (s'.memMap (t - 256) - 1)
                       highMemory := s'.highMemory }
    have hph : s''.phys = Function.update s'.phys d 0#32 := rfl
    have hempty : ∀ j < 1024, mapOf s' (d, j) = none := by
      intro j hj
      rw [hmap, if_pos ⟨rfl, hj⟩]
    have htbl2 : tblOf s'' = Function.update (tblOf s') d none := by
      rw [tblOf_storePde hph hd]
      rfl
    have hmap2 : mapOf s'' = mapOf s' :=
      mapOf_storePde hph hd (fun e u he => A'.tbl_ne_zero he) hempty (by simp)
    have hinv := Space.inv_unhold (Space.inv_tableToHeld A'.inv hd ht' hempty) (f := t)
      (by show 0 < Function.update held t 1 t; rw [Function.update_self]; omega)
    refine ⟨A'.move rfl ?_ ?_ ?_, ?_, ?_, ?_⟩
    · intro f h1 h2 hout
      dsimp only [s'']
      rw [Function.update_of_ne (by omega)]
    · intro a ha
      rw [hph, Function.update_of_ne]
      have := mem_dirs.mp hd
      omega
    · unfold Space.unhold Space.tableToHeld space at hinv
      unfold space
      rw [htbl2, hmap2]
      simp only [s'', cnt_setMemMap s'.memMap (show 256 ≤ t by omega), hc]
      simp only [Function.update_idem] at hinv
      have hheld : Function.update held t 0 = held := by
        rw [← hh', Function.update_eq_self]
      rw [hheld] at hinv
      exact hinv
    · rw [htbl2, htbl]
    · intro x
      rw [hmap2, hmap]
      by_cases hx : x.1 = d
      · rw [if_pos hx]
        by_cases hx2 : x.2 < 1024
        · rw [if_pos ⟨hx, hx2⟩]
        · rw [if_neg (by tauto)]
          unfold mapOf
          rw [if_neg hx2]
      · rw [if_neg hx, if_neg (by tauto)]
    · intro x
      have hof := onlyFrame_storePde hph hd
      rw [views_eq_of_frame hof (congrFun hmap2 x) (fun _ _ => rfl), hview]
      by_cases hx : x.1 = d
      · rw [if_pos hx]
        by_cases hx2 : x.2 < 1024
        · rw [if_pos ⟨hx, hx2⟩]
        · rw [if_neg (by tauto)]
          unfold views mapOf
          rw [if_neg hx2]
          rfl
      · rw [if_neg hx, if_neg (by tauto)]
  · intro hp
    have hn : tblOf s d = none := (tblOf_eq_none hd).mpr (by simpa using hp)
    refine ⟨A, ?_, ?_, ?_⟩
    · rw [← hn, Function.update_eq_self]
    · intro x
      split
      · next hx =>
        obtain ⟨e, k⟩ := x
        subst hx
        exact mapOf_eq_none_of_tbl hn
      · rfl
    · intro x
      split
      · next hx =>
        obtain ⟨e, k⟩ := x
        subst hx
        unfold views
        rw [mapOf_eq_none_of_tbl hn]
        rfl
      · rfl

/-- The number of page tables that cover `size` bytes. -/
def tables (size : Nat) : Nat := (size + 0x3fffff) / 0x400000

theorem tables_mono {a b : Nat} (h : a ≤ b) : tables a ≤ tables b :=
  Nat.div_le_div_right (Nat.add_le_add_right h _)

theorem tables_eq {size : Nat} (h : size + 0x3fffff < 2 ^ 32) :
    ((size + 0x3fffff) % 2 ^ 32) >>> 22 = tables size := by
  rw [Nat.mod_eq_of_lt h, Nat.shiftRight_eq_div_pow]
  rfl

/-- A range that ends within the address space has its tables within the
directory. -/
theorem dirEntry_add_tables {base size : Nat} (halign : base % 0x400000 = 0)
    (hlt : base < 0x100000000) (hend : base + size ≤ 0x100000000) :
    dirEntry base + tables size ≤ 1024 := by
  rw [dirEntry_eq]
  unfold tables
  omega

theorem and_3fffff (a : Nat) : a &&& 0x3fffff = a % 0x400000 :=
  Nat.and_two_pow_sub_one_eq_mod a 22

/-- **`free_page_tables`** on a range of the task slots gives up everything in
it and nothing else, without a panic. -/
theorem freePageTables_spec (A : Acc lo hi s held) {base size : Nat}
    (halign : base % 0x400000 = 0) (hbase : 0x4000000 ≤ base) (hlt : base < 0x100000000)
    (hend : base + size ≤ 0x100000000) :
    wp (freePageTables base size) (fun r s' =>
      r = 0 ∧ Acc lo hi s' held ∧
        (∀ d, tblOf s' d = if dirEntry base ≤ d ∧ d < dirEntry base + tables size
          then none else tblOf s d) ∧
        (∀ x, mapOf s' x = if dirEntry base ≤ x.1 ∧ x.1 < dirEntry base + tables size
          then none else mapOf s x) ∧
        ∀ x, views s' x = if dirEntry base ≤ x.1 ∧ x.1 < dirEntry base + tables size
          then none else views s x)
      (fun _ _ => False) s := by
  have hin := dirEntry_add_tables halign hlt hend
  have hd0 : 16 ≤ dirEntry base := by
    rw [dirEntry_eq]
    omega
  unfold freePageTables
  rw [if_neg (by rw [and_3fffff]; omega), if_neg (by omega), tables_eq (by omega)]
  generalize dirEntry base = d0 at hin hd0 ⊢
  generalize tables size = n at hin ⊢
  simp only [wp_bind, wp_pure]
  -- the first `k` directory entries are clear, all others as before
  let I : Nat → Mem → Prop := fun k s' =>
    Acc lo hi s' held ∧
      (∀ d, tblOf s' d = if d0 ≤ d ∧ d < d0 + k then none else tblOf s d) ∧
      (∀ x, mapOf s' x = if d0 ≤ x.1 ∧ x.1 < d0 + k then none else mapOf s x) ∧
      ∀ x, views s' x = if d0 ≤ x.1 ∧ x.1 < d0 + k then none else views s x
  have hstep : ∀ k s', k < n → I k s' →
      wp (freeDir (d0 + k)) (fun _ => I (k + 1)) (fun _ _ => False) s' := by
    rintro k s' hk ⟨A', htbl, hmap, hview⟩
    refine wp_mono (freeDir_spec A' (mem_dirs.mpr (by omega))) ?_ (fun _ _ h => h)
    rintro _ s'' ⟨A'', htbl', hmap', hview'⟩
    have hcond : ∀ d, d ≠ d0 + k → ((d0 ≤ d ∧ d < d0 + (k + 1)) ↔ (d0 ≤ d ∧ d < d0 + k)) := by
      intro d hd
      omega
    refine ⟨A'', ?_, ?_, ?_⟩
    · intro d
      rw [htbl', Function.update_apply]
      by_cases hd : d = d0 + k
      · rw [if_pos hd, if_pos (by omega)]
      · rw [if_neg hd, htbl]
        simp only [hcond d hd]
    · intro x
      rw [hmap']
      by_cases hd : x.1 = d0 + k
      · rw [if_pos hd, if_pos (by omega)]
      · rw [if_neg hd, hmap]
        simp only [hcond x.1 hd]
    · intro x
      rw [hview']
      by_cases hd : x.1 = d0 + k
      · rw [if_pos hd, if_pos (by omega)]
      · rw [if_neg hd, hview]
        simp only [hcond x.1 hd]
  have hloop := wp_upTo (E := fun _ _ => False) (n := n) hstep
    (show I 0 s from ⟨A, fun d => by rw [if_neg (by omega)], fun x => by rw [if_neg (by omega)],
      fun x => by rw [if_neg (by omega)]⟩)
  refine wp_mono hloop ?_ (fun _ _ h => h)
  rintro _ s' ⟨A', htbl, hmap, hview⟩
  exact ⟨trivial, A', htbl, hmap, hview⟩

end Linux011.Mm
