import Linux011.Mm.Share

/-!
# Memory manager — pages put and unshared

`put_page`, `un_wp_page` and what the page faults call. Each keeps the account of the
frames; what a task sees changes in one cell at most.

* `putPage_spec` — one cell gets the page;
* `unWpPage_spec` — what is seen stays; the entry may be written afterwards;
* `getEmptyPage_spec` — an absent entry gets a zeroed page.
-/

namespace Linux011.Mm

open Linux011.Lib

variable {lo hi : Nat} {s : Mem} {held : Nat → Nat}

/-! ## `put_page` -/

/-- A held frame becomes the page of an empty cell. -/
theorem mapHeld_spec (A : Acc lo hi s held) {d j t f : Nat} (ht : tblOf s d = some t)
    (hj : j < 1024) (hempty : mapOf s (d, j) = none) (hh : 0 < held f) :
    let s' : Mem := { s with phys := Function.update s.phys (t * 1024 + j) (entry7 (f * 4096)) }
    Acc lo hi s' (Function.update held f 0) ∧ tblOf s' = tblOf s ∧
      mapOf s' = Function.update (mapOf s) (d, j) (some (f, true)) ∧
      views s' = Function.update (views s) (d, j) (some (contents s f)) := by
  intro s'
  have hlow := A.low
  have htop := A.top
  have ht0 := A.tbl_ne_zero ht
  have htm := A.tbl_main ht
  have hcell : (d, j) ∈ cells := mem_cells.mpr ⟨(tblOf_eq_some.mp ht).1, hj⟩
  obtain ⟨hlo, hhi, -, htr, hmr, -⟩ := A.inv.of_held hh
  have hft : f ≠ t := by
    rintro rfl
    have := Space.tblRefs_pos (a := space s held) (tblOf_eq_some.mp ht).1 ht
    omega
  have hph : s'.phys = Function.update s.phys (t * 1024 + j) (entry7 (f * 4096)) := rfl
  have hof := onlyFrame_store hj hph
  have hent : entryOf (entry7 (f * 4096)) = some (f, true) := by
    rw [entryOf, if_pos (present_entry7 (by omega)), frameOf_entry7 (by omega), writable_entry7]
  have htbl := tblOf_otherFrame hof ht0
  have hmap := mapOf_storePte hph ht hj ht0 (A.tbl_inj ht)
  have hview := views_storePte hph ht hj ht0 (A.tbl_inj ht) (fun x b => A.tbl_not_mapped ht)
    (by rw [frameOf_entry7 (by omega)]; exact hft)
  rw [hent] at hmap hview
  have hsee : pageView s (some (f, true)) = some (contents s f) := if_pos (by omega)
  rw [hsee] at hview
  refine ⟨A.move rfl (by intros; dsimp only [s']) ?_ ?_, htbl, hmap, hview⟩
  · intro a ha
    exact hof a (by omega)
  · have hinv := Space.inv_mapHeld A.inv hcell hempty
      (by show tblOf s d ≠ none; rw [ht]; simp) hh
    unfold Space.mapHeld space at hinv
    unfold space
    rw [htbl, hmap]
    dsimp only [s']
    exact hinv

/-- **`put_page`** of a held page onto an absent entry: the cell gets the
page, or no page table could be had and nothing changed. -/
theorem putPage_spec (A : Acc lo hi s held) {address f : Nat} (hd : dirEntry address ∈ dirs)
    (hempty : mapOf s (dirEntry address, tableIndex address) = none) (hh : 0 < held f) :
    wp (putPage (f * 4096) address) (fun r s' =>
      (r = 0 ∧ s' = s ∧ freeFrames lo hi s = 0) ∨
      (r = f * 4096 ∧ Acc lo hi s' (Function.update held f 0) ∧
        (∀ d, d ≠ dirEntry address → tblOf s' d = tblOf s d) ∧
        mapOf s' = Function.update (mapOf s) (dirEntry address, tableIndex address)
          (some (f, true)) ∧
        views s' = Function.update (views s) (dirEntry address, tableIndex address)
          (some (contents s f))))
      (fun _ _ => False) s := by
  have hj := tableIndex_lt address
  have hlow := A.low
  unfold putPage
  simp only [wp_bind, wp_load]
  rw [wp_ite]
  constructor
  · intro hp
    have ht : tblOf s (dirEntry address) = some (frameOf (s.phys (dirEntry address))) :=
      tblOf_eq_some.mpr ⟨hd, hp, rfl⟩
    have htable := pageAddr_div (s.phys (dirEntry address))
    rw [htable]
    simp only [wp_bind, wp_store, wp_pure]
    obtain ⟨A', htbl, hmap, hview⟩ := mapHeld_spec A ht hj hempty hh
    exact Or.inr ⟨trivial, A', fun d _ => by rw [htbl], hmap, hview⟩
  · intro hp
    have hn : tblOf s (dirEntry address) = none := (tblOf_eq_none hd).mpr (by simpa using hp)
    rw [wp_bind]
    refine wp_mono (getFreePage_spec A) ?_ (fun _ _ h => h)
    rintro r s1 (⟨rfl, rfl, hfull⟩ | ⟨g, rfl, hlo, hhi, h0, rfl, -⟩)
    · exact Or.inl ⟨rfl, rfl, hfull⟩
    have hdiv : g * 4096 / 4 = g * 1024 := by omega
    rw [if_neg (by omega), hdiv]
    simp only [wp_bind, wp_store, wp_pure]
    obtain ⟨A2, htbl2, hmap2, hview2⟩ := newTable_spec A hd hn hlo hhi h0
    set s2 : Mem := { taken s g with
      phys := Function.update (taken s g).phys (dirEntry address) (entry7 (g * 4096)) } with hs2
    have ht2 : tblOf s2 (dirEntry address) = some g := by rw [htbl2, Function.update_self]
    obtain ⟨A', htbl, hmap, hview⟩ := mapHeld_spec A2 ht2 hj (by rw [hmap2]; exact hempty) hh
    -- the page itself was not touched: it is not the new table
    have hfg : f ≠ g := by
      rintro rfl
      have := (A.free_unused hlo hhi h0).2.2
      omega
    have hcont : contents s2 f = contents s f := by
      have hf := (A.inv.of_held hh).1
      rw [contents_otherFrame (onlyFrame_storePde rfl hd) (by omega),
        contents_otherFrame (onlyFrame_taken g) hfg]
    rw [hmap2] at hmap
    rw [hview2, hcont] at hview
    refine Or.inr ⟨trivial, A', ?_, hmap, hview⟩
    intro d hne
    rw [htbl, htbl2, Function.update_of_ne hne]

/-- `free_page` by the kernel that holds the page. -/
theorem freePage_held (A : Acc lo hi s held) {f : Nat} (hh : 0 < held f) :
    wp (freePage (f * 4096)) (fun _ s' =>
      Acc lo hi s' (Function.update held f 0) ∧ s'.phys = s.phys)
      (fun _ _ => False) s := by
  have hlow := A.low
  obtain ⟨hlo, hhi, -, -, -, hc⟩ := A.inv.of_held hh
  rw [space_cnt (by omega)] at hc
  rw [wp_of_ok (freePage_main (by omega) (by have := A.high; omega) (by omega) (by omega))]
  refine ⟨A.move rfl ?_ (fun _ _ => rfl) ?_, rfl⟩
  · intro g h1 h2 hout
    dsimp only
    rw [Function.update_of_ne (by omega)]
  · have hinv := Space.inv_unhold A.inv hh
    unfold Space.unhold space at hinv
    rw [hc]
    unfold space
    simp only [cnt_setMemMap s.memMap (show 256 ≤ f by omega)]
    exact hinv

/-! ## Write protection -/

/-- What a write fault leaves behind at the cell `x` that mapped frame `g`:
an entry that may be written, showing what was there, and nothing else
changed. -/
structure Unshared (s : Mem) (x : Nat × Nat) (g : Nat) (s' : Mem) : Prop where
  tbl   : tblOf s' = tblOf s
  entry : ∃ f, 256 ≤ f ∧ mapOf s' x = some (f, true)
  view  : views s' x = some (contents s g)
  cells : ∀ y, y ≠ x → shows s' y = shows s y

/-- The copy made by `un_wp_page`: frame `f`, just handed out, replaces frame
`g` in the cell, with the contents of `g`. `m` is `mem_map` after the use of `g`
was given up. -/
theorem acc_unshare (A : Acc lo hi s held) {d j t f g : Nat} {w : Bool} {m : Nat → Nat}
    (ht : tblOf s d = some t) (hj : j < 1024) (hm : mapOf s (d, j) = some (g, w))
    (hlo : lo ≤ f) (hhi : f < hi) (h0 : s.memMap (f - 256) = 0)
    (hcnt : m = if 256 ≤ g then
      Function.update (taken s f).memMap (g - 256) (s.memMap (g - 256) - 1)
      else (taken s f).memMap) :
    let s2 : Mem := { taken s f with
      memMap := m
      phys := Function.update (taken s f).phys (t * 1024 + j) (entry7 (f * 4096)) }
    let s3 : Mem := { s2 with
      phys := fun a => if a / 1024 = f then s2.phys (g * 1024 + a % 1024) else s2.phys a }
    Acc lo hi s3 held ∧ Unshared s (d, j) g s3 := by
  intro s2 s3
  obtain ⟨hnt, hnm, hh0⟩ := A.free_unused hlo hhi h0
  obtain ⟨A1, htbl1, hmap1, hview1⟩ := acc_taken A hlo hhi h0
  have hlow := A.low
  have htop := A.top
  have hcell : (d, j) ∈ cells := mem_cells.mpr ⟨(tblOf_eq_some.mp ht).1, hj⟩
  have hm1 : mapOf (taken s f) (d, j) = some (g, w) := by rw [hmap1]; exact hm
  have hgf : g ≠ f := by
    rintro rfl
    exact hnm _ _ hm
  have hgt : g ≠ t := fun h => A.tbl_not_mapped ht (by rw [hm, h])
  have ht0 := A.tbl_ne_zero ht
  have htm := A.tbl_main ht
  have hft : f ≠ t := by
    rintro rfl
    exact hnt d ht
  have ht1 : tblOf (taken s f) d = some t := by rw [htbl1]; exact ht
  -- the entry
  have hph2 : s2.phys = Function.update (taken s f).phys (t * 1024 + j) (entry7 (f * 4096)) := rfl
  have hof2 := onlyFrame_store hj hph2
  have hent : entryOf (entry7 (f * 4096)) = some (f, true) := by
    rw [entryOf, if_pos (present_entry7 (by omega)), frameOf_entry7 (by omega), writable_entry7]
  have htbl2 : tblOf s2 = tblOf s := (tblOf_otherFrame hof2 ht0).trans htbl1
  have hmap2 : mapOf s2 = Function.update (mapOf s) (d, j) (some (f, true)) := by
    rw [mapOf_storePte hph2 ht1 hj ht0 (A1.tbl_inj ht1), hent, hmap1]
  have hview2 := views_storePte hph2 ht1 hj ht0 (A1.tbl_inj ht1) (fun x b => A1.tbl_not_mapped ht1)
    (by rw [frameOf_entry7 (by omega)]; exact hft)
  rw [hview1] at hview2
  -- the contents
  have hof3 : OnlyFrame f s2 s3 := by
    intro a ha
    exact if_neg ha
  have hnt2 : ∀ e, tblOf s2 e ≠ some f := by rw [htbl2]; exact hnt
  have htbl3 : tblOf s3 = tblOf s := (tblOf_otherFrame hof3 (by omega)).trans htbl2
  have hmap3 : mapOf s3 = Function.update (mapOf s) (d, j) (some (f, true)) :=
    (mapOf_otherFrame hof3 (by omega) hnt2).trans hmap2
  have hcont : contents s3 f = contents s g := by
    funext k
    have hk := k.isLt
    have h1 : s3.phys (f * 1024 + k) = s2.phys (g * 1024 + (f * 1024 + k) % 1024) :=
      if_pos (by omega)
    have h2 : (f * 1024 + (k : Nat)) % 1024 = k := by omega
    unfold contents
    rw [h1, h2, hof2 _ (by omega), onlyFrame_taken f _ (by omega)]
  refine ⟨A1.move rfl ?_ ?_ ?_, ⟨htbl3, ⟨f, by omega, ?_⟩, ?_, ?_⟩⟩
  · intro e h1 h2 hout
    dsimp only [s3, s2]
    rw [hcnt]
    split
    · next hg =>
      have := A.cnt_mapped hm hg
      rw [Function.update_of_ne (by omega)]
    · rfl
  · intro a ha
    rw [hof3 a (by omega), hof2 a (by omega)]
  · have hinv := Space.inv_mapHeld (Space.inv_unmap hlow A1.inv hcell hm1) (x := (d, j)) (f := f)
      hcell (Function.update_self ..) (by show tblOf (taken s f) d ≠ none; rw [ht1]; simp)
      (by show 0 < Function.update held f 1 f; rw [Function.update_self]; omega)
    unfold Space.mapHeld Space.unmap space at hinv
    have hheld : Function.update held f 0 = held := by
      rw [← hh0, Function.update_eq_self]
    simp only [Function.update_idem, hheld, htbl1, hmap1] at hinv
    unfold space
    rw [htbl3, hmap3]
    dsimp only [s3, s2]
    rw [hcnt]
    by_cases hg : 256 ≤ g
    · rw [if_pos hg]
      simp only [if_pos hg] at hinv
      have hsame : (taken s f).memMap (g - 256) = s.memMap (g - 256) := by
        unfold taken
        dsimp only
        rw [Function.update_of_ne (by omega)]
      rw [hsame] at hinv
      simp only [cnt_setMemMap _ hg]
      exact hinv
    · rw [if_neg hg]
      simp only [if_neg hg] at hinv
      exact hinv
  · rw [hmap3, Function.update_self]
  · unfold views
    rw [hmap3, Function.update_self]
    show (if f ≠ 0 then some (contents s3 f) else none) = _
    rw [if_pos (by omega), hcont]
  · intro y hy
    refine shows_congr ?_ ?_
    · rw [hmap3, Function.update_of_ne hy]
    · have hmy : mapOf s2 y = mapOf s y := by rw [hmap2, Function.update_of_ne hy]
      have hmy3 : mapOf s3 y = mapOf s2 y := by rw [hmap3, hmap2]
      rw [views_eq_of_frame hof3 hmy3 (fun b hb => absurd (hmy ▸ hb) (hnm y b)), hview2,
        Function.update_of_ne hy]

/-- The fast path of `un_wp_page`: the only user of a page gets it. -/
theorem acc_writable (A : Acc lo hi s held) {d j t : Nat} (ht : tblOf s d = some t)
    (hj : j < 1024) (hp : present (s.phys (t * 1024 + j)) = true)
    (hf : 256 ≤ frameOf (s.phys (t * 1024 + j)))
    (hc : s.memMap (frameOf (s.phys (t * 1024 + j)) - 256) = 1) :
    let s' : Mem := { s with
      phys := Function.update s.phys (t * 1024 + j) (s.phys (t * 1024 + j) ||| 2#32) }
    Acc lo hi s' held ∧ Unshared s (d, j) (frameOf (s.phys (t * 1024 + j))) s' := by
  intro s'
  have hm := mapOf_of_tbl ht hj
  rw [entryOf, if_pos hp] at hm
  set w := s.phys (t * 1024 + j) with hw
  obtain ⟨hlo, hhi, -, -⟩ := A.cnt_mapped hm hf
  have hlow := A.low
  have ht0 := A.tbl_ne_zero ht
  have htm := A.tbl_main ht
  have hcell : (d, j) ∈ cells := mem_cells.mpr ⟨(tblOf_eq_some.mp ht).1, hj⟩
  have hwt : frameOf w ≠ t := fun h => A.tbl_not_mapped ht (by rw [hm, h])
  have hph : s'.phys = Function.update s.phys (t * 1024 + j) (w ||| 2#32) := rfl
  have hof := onlyFrame_store hj hph
  have hent : entryOf (w ||| 2#32) = some (frameOf w, true) := by
    rw [entryOf, present_or_two, if_pos hp, frameOf_or_two, writable_or_two]
  have htbl := tblOf_otherFrame hof ht0
  have hmap := mapOf_storePte hph ht hj ht0 (A.tbl_inj ht)
  have hview := views_storePte hph ht hj ht0 (A.tbl_inj ht) (fun x b => A.tbl_not_mapped ht)
    (by rw [frameOf_or_two]; exact hwt)
  rw [hent] at hmap hview
  have hsee : pageView s (some (frameOf w, true)) = some (contents s (frameOf w)) :=
    if_pos (by omega)
  rw [hsee] at hview
  refine ⟨A.move rfl (by intros; dsimp only [s']) ?_ ?_, ⟨htbl, ⟨frameOf w, hf, ?_⟩, ?_, ?_⟩⟩
  · intro a ha
    exact hof a (by omega)
  · have hinv := Space.inv_setWritable A.inv hcell hm hlo hhi (by rw [space_cnt hf]; exact hc)
    unfold Space.setWritable space at hinv
    unfold space
    rw [htbl, hmap]
    dsimp only [s']
    exact hinv
  · rw [hmap, Function.update_self]
  · rw [hview, Function.update_self]
  · intro y hy
    refine shows_congr ?_ ?_
    · rw [hmap, Function.update_of_ne hy]
    · rw [hview, Function.update_of_ne hy]

/-- `copy_page` between two frames. -/
theorem wp_copyPage (g f : Nat) (Q : Unit → Mem → Prop) (E : Stop → Mem → Prop) :
    wp (copyPage (g * 4096) (f * 4096)) Q E s ↔
      Q () { s with phys := fun a =>
        if a / 1024 = f then s.phys (g * 1024 + a % 1024) else s.phys a } := by
  have h2 : g * 4096 / 4 = g * 1024 := by omega
  have h1 : f * 4096 / 4096 = f := Nat.mul_div_cancel f (by decide)
  unfold copyPage
  simp only [h1, h2]
  rfl

/-- **`un_wp_page`** on a present entry: what is seen stays, the entry may be
written, no other cell changes; or there was no page left and the task has
left. -/
theorem unWpPage_spec (A : Acc lo hi s held) {cur : Ldt} {slot d j t g : Nat} {w : Bool}
    (hcur : cur.InSlot slot) (hslot : 1 ≤ slot) (ht : tblOf s d = some t) (hj : j < 1024)
    (hm : mapOf s (d, j) = some (g, w)) :
    wp (unWpPage cur (t * 1024 + j)) (fun _ s' => Acc lo hi s' held ∧ Unshared s (d, j) g s')
      (fun e s' => e = .exit ∧ Acc lo hi s' held ∧ freeFrames lo hi s < 2) s := by
  have hlow := A.low
  obtain ⟨hp, hg⟩ : present (s.phys (t * 1024 + j)) = true ∧
      frameOf (s.phys (t * 1024 + j)) = g := by
    have h := hm
    rw [mapOf_of_tbl ht hj, entryOf] at h
    split at h
    · next hp => exact ⟨hp, congrArg Prod.fst (Option.some.inj h)⟩
    · cases h
  have haddr : ∀ f, f * 4096 ≥ lowMem ↔ 256 ≤ f := by
    intro f
    unfold lowMem
    omega
  have hnr : mapNr (g * 4096) = g - 256 := by
    unfold mapNr lowMem
    rw [Nat.shiftRight_eq_div_pow]
    omega
  unfold unWpPage
  simp only [wp_bind, wp_load, wp_get]
  rw [pageAddr_eq, hg, hnr, wp_ite]
  constructor
  · rintro ⟨hf, hc⟩
    rw [wp_store, ← hg]
    exact acc_writable A ht hj hp (by rw [hg]; exact (haddr g).mp hf) (by rw [hg]; exact hc)
  · intro hslow
    rw [wp_bind]
    refine wp_mono (getFreePage_spec A) ?_ (fun _ _ h => h.elim)
    rintro r s1 (⟨rfl, rfl, hfull⟩ | ⟨f, rfl, hlo, hhi, h0, rfl, -⟩)
    · rw [if_pos rfl]
      exact wp_mono (oom_spec A hcur hslot _) (fun _ _ h => h)
        (fun _ _ h => ⟨h.1, h.2, by omega⟩)
    rw [if_neg (by omega)]
    obtain ⟨-, hnm, -⟩ := A.free_unused hlo hhi h0
    have hgf : g ≠ f := by
      rintro rfl
      exact hnm _ _ hm
    rw [wp_ite]
    constructor
    · intro hf
      have hf' := (haddr g).mp hf
      obtain ⟨h1, h2, h3, h4⟩ := A.cnt_mapped hm hf'
      have hsame : (taken s f).memMap (g - 256) = s.memMap (g - 256) := by
        unfold taken
        dsimp only
        rw [Function.update_of_ne (by omega)]
      have hdec : (s.memMap (g - 256) + 255) % 256 = s.memMap (g - 256) - 1 := by omega
      simp only [wp_bind, wp_get, wp_setMemMap, wp_store]
      rw [wp_copyPage, hsame, hdec]
      exact acc_unshare A ht hj hm hlo hhi h0 (by rw [if_pos hf'])
    · intro hf
      have hf' : ¬ 256 ≤ g := fun h => hf ((haddr g).mpr h)
      simp only [wp_bind, wp_store]
      rw [wp_copyPage]
      exact acc_unshare A ht hj hm hlo hhi h0 (by rw [if_neg hf'])

/-- The table entry `do_wp_page` and `write_verify` look at. -/
theorem entry_of_mapOf {address g : Nat} {w : Bool}
    (hm : mapOf s (dirEntry address, tableIndex address) = some (g, w)) :
    ∃ t, tblOf s (dirEntry address) = some t ∧
      pageAddr (s.phys (dirEntry address)) / 4 = t * 1024 := by
  cases ht : tblOf s (dirEntry address) with
  | none =>
    rw [mapOf_eq_none_of_tbl ht] at hm
    cases hm
  | some t =>
    refine ⟨t, rfl, ?_⟩
    rw [pageAddr_eq, (tblOf_eq_some.mp ht).2.2]
    omega

theorem doWpPage_spec (A : Acc lo hi s held) {cur : Ldt} {slot address g : Nat} {w : Bool}
    (hcur : cur.InSlot slot) (hslot : 1 ≤ slot)
    (hm : mapOf s (dirEntry address, tableIndex address) = some (g, w)) :
    wp (doWpPage cur address)
      (fun _ s' => Acc lo hi s' held ∧ Unshared s (dirEntry address, tableIndex address) g s')
      (fun e s' => e = .exit ∧ Acc lo hi s' held ∧ freeFrames lo hi s < 2) s := by
  obtain ⟨t, ht, htable⟩ := entry_of_mapOf hm
  unfold doWpPage
  simp only [wp_bind, wp_load]
  rw [htable, Nat.add_comm]
  exact unWpPage_spec A hcur hslot ht (tableIndex_lt address) hm

theorem writeVerify_spec (A : Acc lo hi s held) {cur : Ldt} {slot address : Nat}
    (hcur : cur.InSlot slot) (hslot : 1 ≤ slot) (hd : dirEntry address ∈ dirs) :
    wp (writeVerify cur address) (fun _ s' => Acc lo hi s' held)
      (fun e s' => e = .exit ∧ Acc lo hi s' held ∧ freeFrames lo hi s < 2) s := by
  unfold writeVerify
  simp only [wp_bind, wp_load]
  rw [wp_ite]
  constructor
  · intro hp
    have ht : tblOf s (dirEntry address) = some (frameOf (s.phys (dirEntry address))) :=
      tblOf_eq_some.mpr ⟨hd, hp, rfl⟩
    have htable := pageAddr_div (s.phys (dirEntry address))
    rw [htable]
    simp only [wp_bind, wp_load]
    rw [wp_ite]
    constructor
    · intro hro
      have hj := tableIndex_lt address
      have hm := mapOf_of_tbl ht hj
      generalize s.phys (frameOf (s.phys (dirEntry address)) * 1024 + tableIndex address) = w
        at hro hm
      -- bit 0 of the entry is set
      have hpw : present w = true := by
        have h0 := congrArg (fun v : Word => v.getLsbD 0) hro
        rw [present_eq]
        simpa using h0
      rw [entryOf, if_pos hpw] at hm
      refine wp_mono (unWpPage_spec A hcur hslot ht hj hm) ?_ (fun _ _ h => h)
      rintro _ s' ⟨A', -⟩
      exact A'
    · intro _
      exact A
  · intro _
    exact A

/-- **`get_empty_page`** on an absent entry: the cell gets a zeroed page. -/
theorem getEmptyPage_spec (A : Acc lo hi s held) {cur : Ldt} {slot address : Nat}
    (hcur : cur.InSlot slot) (hslot : 1 ≤ slot) (hd : dirEntry address ∈ dirs)
    (hempty : mapOf s (dirEntry address, tableIndex address) = none) :
    wp (getEmptyPage cur address) (fun _ s' =>
      Acc lo hi s' held ∧ (∀ d, d ≠ dirEntry address → tblOf s' d = tblOf s d) ∧
        (∃ f, 256 ≤ f ∧
          mapOf s' (dirEntry address, tableIndex address) = some (f, true)) ∧
        views s' (dirEntry address, tableIndex address) = some (fun _ => 0#32) ∧
        ∀ y, y ≠ (dirEntry address, tableIndex address) → shows s' y = shows s y)
      (fun e s' => e = .exit ∧ Acc lo hi s' held ∧ freeFrames lo hi s < 2) s := by
  have hlow := A.low
  unfold getEmptyPage
  rw [wp_bind]
  refine wp_mono (getFreePage_spec A) ?_ (fun _ _ h => h.elim)
  rintro r s1 (⟨rfl, rfl, hfull⟩ | ⟨f, rfl, hlo, hhi, h0, hs1, A1, htbl1, hmap1, hview1⟩)
  · rw [if_pos rfl, wp_bind]
    have hfree := freePage_low (s := s1) (f := 0) (by omega)
    rw [Nat.zero_mul] at hfree
    rw [wp_of_ok hfree]
    exact wp_mono (oom_spec A hcur hslot _) (fun _ _ h => h) (fun _ _ h => ⟨h.1, h.2, by omega⟩)
  rw [if_neg (by omega), wp_bind]
  have hheld : 0 < Function.update held f 1 f := by rw [Function.update_self]; omega
  have hback : Function.update (Function.update held f 1) f 0 = held := by
    have hh0 := (A.free_unused hlo hhi h0).2.2
    rw [Function.update_idem, ← hh0, Function.update_eq_self]
  refine wp_mono (putPage_spec A1 hd (by rw [hmap1]; exact hempty) hheld) ?_ (fun _ _ h => h.elim)
  rintro r s2 (⟨rfl, rfl, hfull⟩ | ⟨rfl, A2, htbl2, hmap2, hview2⟩)
  · rw [if_pos rfl, wp_bind]
    refine wp_mono (freePage_held A1 hheld) ?_ (fun _ _ h => h.elim)
    rintro _ s3 ⟨A3, -⟩
    rw [hback] at A3
    -- the page was there, the page table was not
    have hone : freeFrames lo hi s < 2 := by
      have hle : freeFrames lo hi s ≤ freeFrames lo hi (taken s f) + 1 :=
        freeFrames_taken hlow (by omega)
      rw [← hs1] at hle
      omega
    exact wp_mono (oom_spec A3 hcur hslot _) (fun _ _ h => h) (fun _ _ h => ⟨h.1, h.2, hone⟩)
  · rw [if_neg (by omega)]
    rw [hback] at A2
    rw [hmap1] at hmap2
    rw [hview1] at hview2
    have hzero : contents s1 f = fun _ => 0#32 := by
      funext k
      have hk := k.isLt
      rw [hs1]
      exact if_pos (by omega)
    refine ⟨A2, ?_, ⟨f, by omega, ?_⟩, ?_, ?_⟩
    · intro d hne
      rw [htbl2 d hne, htbl1]
    · rw [hmap2, Function.update_self]
    · rw [hview2, Function.update_self, hzero]
    · intro y hy
      refine shows_congr ?_ ?_
      · rw [hmap2, Function.update_of_ne hy]
      · rw [hview2, Function.update_of_ne hy]

end Linux011.Mm
