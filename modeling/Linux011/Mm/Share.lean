import Linux011.Mm.Account

/-!
# Memory manager — sharing, fork and exit

The routines that set up and give up whole slots, on top of
`Mm/Account.lean`: `copy_page_tables`, the memory part of `do_exit`, and
`copy_mem`. Each keeps the accounts, and is described by what it does to
`shows`, the frame and the contents a task finds at a cell.

* `copyPageTables_spec` — the copy shows what the original shows, nothing
  else changes;
* `exitMm_spec` — a slot is given up, nothing else changes;
* `copyMem_spec` — the fork step as a whole.
-/

namespace Linux011.Mm

open Linux011.Lib

/-- The frame a cell maps and what a task sees there. -/
def shows (s : Mem) (x : Nat × Nat) : Option Nat × Option (Fin 1024 → Word) :=
  ((mapOf s x).map Prod.fst, views s x)

variable {lo hi : Nat} {s : Mem} {held : Nat → Nat}

theorem shows_congr {s s' : Mem} {x : Nat × Nat} (hm : mapOf s' x = mapOf s x)
    (hv : views s' x = views s x) : shows s' x = shows s x := by
  unfold shows
  rw [hm, hv]

theorem shows_of_map_none {x : Nat × Nat} (h : mapOf s x = none) : shows s x = (none, none) := by
  unfold shows views
  rw [h]
  rfl

theorem shows_of_tbl_none {d j : Nat} (h : tblOf s d = none) : shows s (d, j) = (none, none) :=
  shows_of_map_none (mapOf_eq_none_of_tbl h)

theorem shows_of_ge {d j : Nat} (h : ¬ j < 1024) : shows s (d, j) = (none, none) := by
  refine shows_of_map_none ?_
  unfold mapOf
  rw [if_neg h]

/-! ## A new page table -/

/-- A frame handed out by `get_free_page` becomes the empty page table of an
absent directory entry. -/
theorem newTable_spec (A : Acc lo hi s held) {d f : Nat} (hd : d ∈ dirs) (hn : tblOf s d = none)
    (hlo : lo ≤ f) (hhi : f < hi) (h0 : s.memMap (f - 256) = 0) :
    let s' : Mem := { taken s f with
      phys := Function.update (taken s f).phys d (entry7 (f * 4096)) }
    Acc lo hi s' held ∧ tblOf s' = Function.update (tblOf s) d (some f) ∧ mapOf s' = mapOf s ∧
      views s' = views s := by
  intro s'
  obtain ⟨hnt, hnm, hh0⟩ := A.free_unused hlo hhi h0
  obtain ⟨A1, htbl1, hmap1, hview1⟩ := acc_taken A hlo hhi h0
  have hlow := A.low
  have htop := A.top
  have hph : s'.phys = Function.update (taken s f).phys d (entry7 (f * 4096)) := rfl
  have hn1 : tblOf (taken s f) d = none := by rw [htbl1]; exact hn
  have htbl : tblOf s' = Function.update (tblOf s) d (some f) := by
    rw [tblOf_storePde hph hd, present_entry7 (by omega), frameOf_entry7 (by omega), htbl1]
    rfl
  have hmap : mapOf s' = mapOf (taken s f) := by
    refine mapOf_storePde hph hd (fun e t he => A1.tbl_ne_zero he)
      (fun j _ => mapOf_eq_none_of_tbl hn1) ?_
    intro _
    rw [frameOf_entry7 (by omega)]
    refine ⟨by omega, fun j hj => ?_⟩
    -- the page is cleared
    have hz : (taken s f).phys (f * 1024 + j) = 0#32 := if_pos (by omega)
    rw [hz, present_zero]
  have hdd := mem_dirs.mp hd
  refine ⟨A1.move rfl (by intros; dsimp only [s']) ?_ ?_, htbl, hmap.trans hmap1, ?_⟩
  · intro a ha
    rw [hph, Function.update_of_ne (by omega)]
  · have hinv := Space.inv_heldToTable A1.inv hd hn1 (f := f)
      (by show 0 < Function.update held f 1 f; rw [Function.update_self]; omega)
    unfold Space.heldToTable space at hinv
    have hheld : Function.update held f 0 = held := by
      rw [← hh0, Function.update_eq_self]
    simp only [Function.update_idem, hheld] at hinv
    unfold space
    rw [htbl, hmap, ← htbl1]
    dsimp only [s']
    exact hinv
  · funext x
    have hof := onlyFrame_storePde hph hd
    rw [views_eq_of_frame hof (congrFun hmap x) (fun _ _ => rfl), hview1]

/-! ## `copy_page_tables` -/

/-- A read-only entry for a page below 1 MB is written into an empty cell. -/
theorem acc_storeLow (A : Acc lo hi s held) {e j u : Nat} {w : Word} (hu : tblOf s e = some u)
    (hj : j < 1024) (hempty : mapOf s (e, j) = none) (hp : present w = true)
    (hw : writable w = false) (hf : frameOf w < 256) :
    Acc lo hi { s with phys := Function.update s.phys (u * 1024 + j) w } held := by
  have hlow := A.low
  have hu0 := A.tbl_ne_zero hu
  have hum := A.tbl_main hu
  set s1 : Mem := { s with phys := Function.update s.phys (u * 1024 + j) w } with hs1
  have hph1 : s1.phys = Function.update s.phys (u * 1024 + j) w := rfl
  have hof1 := onlyFrame_store hj hph1
  have hcy : (e, j) ∈ cells := mem_cells.mpr ⟨(tblOf_eq_some.mp hu).1, hj⟩
  refine A.move rfl (by intros; dsimp only [s1]) ?_ ?_
  · intro a ha
    exact hof1 a (by omega)
  · have hinv := Space.inv_shareLow hlow A.inv hcy hf hempty
      (by show tblOf s e ≠ none; rw [hu]; simp)
    unfold Space.shareLow space at hinv
    unfold space
    rw [tblOf_otherFrame hof1 hu0, mapOf_storePte hph1 hu hj hu0 (A.tbl_inj hu), entryOf,
      if_pos hp, hw]
    exact hinv

/-- One entry is copied: afterwards the two cells show the same page, both
read-only. -/
theorem copyEntry_spec (A : Acc lo hi s held) {d e j t u : Nat} (ht : tblOf s d = some t)
    (hu : tblOf s e = some u) (hne : d ≠ e) (hplace : d % 16 = e % 16) (hj : j < 1024)
    (hempty : mapOf s (e, j) = none) :
    wp (copyEntry (t * 1024) (u * 1024) j) (fun _ s' =>
      Acc lo hi s' held ∧ tblOf s' = tblOf s ∧
        ∀ x, shows s' x = if x = (e, j) then shows s (d, j) else shows s x)
      (fun _ _ => False) s := by
  have hlow := A.low
  have hm := mapOf_of_tbl ht hj
  have hcx : (d, j) ∈ cells := mem_cells.mpr ⟨(tblOf_eq_some.mp ht).1, hj⟩
  have hcy : (e, j) ∈ cells := mem_cells.mpr ⟨(tblOf_eq_some.mp hu).1, hj⟩
  have hxy : ((d, j) : Nat × Nat) ≠ (e, j) := by
    intro h
    exact hne (congrArg Prod.fst h)
  have hu0 := A.tbl_ne_zero hu
  have ht0 := A.tbl_ne_zero ht
  have hum := A.tbl_main hu
  have htm := A.tbl_main ht
  unfold copyEntry
  simp only [wp_bind, wp_load]
  rw [wp_ite]
  constructor
  · intro hp
    rw [entryOf, if_pos hp] at hm
    set w := s.phys (t * 1024 + j) with hw
    set w' := w &&& ~~~2#32 with hw'
    have hp' : present w' = true := by rw [hw', present_and_not_two]; exact hp
    have hfr : frameOf w' = frameOf w := by rw [hw', frameOf_and_not_two]
    have hent : entryOf w' = some (frameOf w, false) := by
      rw [entryOf, if_pos hp', hfr, hw', writable_and_not_two]
    have hnu : frameOf w ≠ u := fun h => A.tbl_not_mapped hu (by rw [hm, h])
    have hnt : frameOf w ≠ t := fun h => A.tbl_not_mapped ht (by rw [hm, h])
    -- the first store: the entry of the copy
    set s1 : Mem := { s with phys := Function.update s.phys (u * 1024 + j) w' } with hs1
    have hph1 : s1.phys = Function.update s.phys (u * 1024 + j) w' := rfl
    have hof1 := onlyFrame_store hj hph1
    have htbl1 : tblOf s1 = tblOf s := tblOf_otherFrame hof1 hu0
    have hmap1 : mapOf s1 = Function.update (mapOf s) (e, j) (some (frameOf w, false)) := by
      rw [mapOf_storePte hph1 hu hj hu0 (A.tbl_inj hu), hent]
    have hview1 := views_storePte hph1 hu hj hu0 (A.tbl_inj hu) (fun x b => A.tbl_not_mapped hu)
      (by rw [hfr]; exact hnu)
    rw [hent] at hview1
    have hsee : pageView s (some (frameOf w, false)) = views s (d, j) := by
      unfold views
      rw [hm]
      rfl
    rw [hsee] at hview1
    have hshow1 : ∀ x, shows s1 x = if x = (e, j) then shows s (d, j) else shows s x := by
      intro x
      unfold shows
      rw [hmap1, hview1, Function.update_apply, Function.update_apply]
      split
      · rw [hm]
        rfl
      · rfl
    simp only [wp_bind, wp_store]
    rw [wp_ite]
    constructor
    · -- a page that is counted: the original becomes read-only too
      intro hgt
      have hf : 256 ≤ frameOf w := by
        rw [← hfr]
        exact (lowMem_lt_iff hp').mp hgt
      obtain ⟨h1, h2, h3, h4⟩ := A.cnt_mapped hm hf
      have hnr : (w'.toNat - lowMem) >>> 12 = frameOf w - 256 := by
        rw [← hfr, Nat.shiftRight_eq_div_pow]
        unfold frameOf lowMem
        omega
      have hinc : (s.memMap (frameOf w - 256) + 1) % 256 = s.memMap (frameOf w - 256) + 1 := by
        omega
      simp only [wp_bind, wp_get, wp_store, wp_setMemMap, hnr]
      rw [hinc]
      set s2 : Mem := { phys := Function.update s1.phys (t * 1024 + j) w'
                        memMap := Function.update s.memMap (frameOf w - 256)
                          (s.memMap (frameOf w - 256) + 1)
                        highMemory := s.highMemory } with hs2
      have hph2 : s2.phys = Function.update s1.phys (t * 1024 + j) w' := rfl
      have ht1 : tblOf s1 d = some t := by rw [htbl1]; exact ht
      have hinj1 : ∀ e', tblOf s1 e' = some t → e' = d := by rw [htbl1]; exact A.tbl_inj ht
      have hof2 := onlyFrame_store hj hph2
      have htbl2 : tblOf s2 = tblOf s := (tblOf_otherFrame hof2 ht0).trans htbl1
      have hmap2 := mapOf_storePte hph2 ht1 hj ht0 hinj1
      rw [hent, hmap1] at hmap2
      have hnm1 : ∀ x b, mapOf s1 x ≠ some (t, b) := by
        intro x b hx
        rw [hmap1, Function.update_apply] at hx
        split at hx
        · exact hnt (congrArg Prod.fst (Option.some.inj hx))
        · exact A.tbl_not_mapped ht hx
      have hview2 := views_storePte hph2 ht1 hj ht0 hinj1 hnm1 (by rw [hfr]; exact hnt)
      rw [hent] at hview2
      -- what the original shows is what it showed
      have hself : pageView s1 (some (frameOf w, false)) = views s1 (d, j) := by
        unfold views
        rw [hmap1, Function.update_of_ne hxy, hm]
        rfl
      rw [hself, Function.update_eq_self] at hview2
      refine ⟨A.move rfl ?_ ?_ ?_, htbl2, ?_⟩
      · intro g hg1 hg2 hout
        dsimp only [s2]
        rw [Function.update_of_ne (by omega)]
      · intro a ha
        rw [hof2 a (by omega), hof1 a (by omega)]
      · have hinv := Space.inv_share A.inv hcx hcy hxy hf hm hempty
          (by show tblOf s e ≠ none; rw [hu]; simp) ⟨hplace, rfl⟩
        unfold Space.share space at hinv
        unfold space
        rw [htbl2, hmap2]
        simp only [if_pos hf] at hinv
        simp only [s2, cnt_setMemMap s.memMap hf]
        exact hinv
      · intro x
        rw [← hshow1 x]
        unfold shows
        rw [hview2, hmap2, ← hmap1, Function.update_apply]
        split
        · next hx =>
          subst hx
          rw [hmap1, Function.update_of_ne hxy, hm]
          rfl
        · rfl
    · -- a page below 1 MB is not counted
      intro hle
      have hf : frameOf w < 256 := by
        rw [← hfr]
        exact Nat.lt_of_not_le (fun h => hle ((lowMem_lt_iff hp').mpr h))
      exact ⟨acc_storeLow A hu hj hempty hp' (writable_and_not_two w) (by rw [hfr]; exact hf),
        htbl1, hshow1⟩
  · -- an absent entry: nothing is written
    intro hp
    rw [entryOf, if_neg hp] at hm
    refine ⟨A, rfl, ?_⟩
    intro x
    split
    · next hx => rw [hx, shows_of_map_none hm, shows_of_map_none hempty]
    · rfl

/-- From slot 0: an entry of the kernel's first page table is copied
read-only. -/
theorem copyEntry_boot_spec (A : Acc lo hi s held) {e j u : Nat} (hu : tblOf s e = some u)
    (hj : j < 160) (hempty : mapOf s (e, j) = none) :
    wp (copyEntry 1024 (u * 1024) j) (fun _ s' =>
      Acc lo hi s' held ∧ tblOf s' = tblOf s ∧ ∀ x, x ≠ (e, j) → mapOf s' x = mapOf s x)
      (fun _ _ => False) s := by
  have hu0 := A.tbl_ne_zero hu
  have hlowf := A.boot.2 j hj
  unfold copyEntry
  simp only [wp_bind, wp_load]
  rw [wp_ite]
  constructor
  · intro hp
    set w := s.phys (1024 + j) with hw
    have hp' : present (w &&& ~~~2#32) = true := by rw [present_and_not_two]; exact hp
    simp only [wp_bind, wp_store]
    rw [if_neg]
    · have hj' : j < 1024 := by omega
      refine ⟨acc_storeLow A hu hj' hempty hp' (writable_and_not_two w)
        (by rw [frameOf_and_not_two]; exact hlowf), ?_, ?_⟩
      · exact tblOf_otherFrame (onlyFrame_store hj' rfl) hu0
      · intro x hx
        rw [mapOf_storePte rfl hu hj' hu0 (A.tbl_inj hu), Function.update_of_ne hx]
    · intro hgt
      have := (lowMem_lt_iff hp').mp hgt
      rw [frameOf_and_not_two] at this
      omega
  · intro _
    exact ⟨A, rfl, fun _ _ => rfl⟩

/-- What the outer loop of `copy_page_tables` leaves alone: everything outside
the `n` directory entries from `td` on. -/
structure Outside (td n : Nat) (s s' : Mem) : Prop where
  tbl   : ∀ d, d < td ∨ td + n ≤ d → tblOf s' d = tblOf s d
  cells : ∀ x : Nat × Nat, x.1 < td ∨ td + n ≤ x.1 → shows s' x = shows s x

/-- One page table is copied entry by entry. -/
theorem copyTable_spec (A : Acc lo hi s held) {d e t u : Nat} (ht : tblOf s d = some t)
    (hu : tblOf s e = some u) (hne : d ≠ e) (hplace : d % 16 = e % 16)
    (hempty : ∀ j, mapOf s (e, j) = none) :
    wp (upTo 1024 (copyEntry (t * 1024) (u * 1024))) (fun _ s' =>
      Acc lo hi s' held ∧ tblOf s' = tblOf s ∧
        ∀ x : Nat × Nat, shows s' x = if x.1 = e then shows s (d, x.2) else shows s x)
      (fun _ _ => False) s := by
  -- the entries below `n` are copied, all others as before
  let I : Nat → Mem → Prop := fun n s' =>
    Acc lo hi s' held ∧ tblOf s' = tblOf s ∧ (∀ j, n ≤ j → mapOf s' (e, j) = none) ∧
      ∀ x : Nat × Nat, shows s' x = if x.1 = e ∧ x.2 < n then shows s (d, x.2) else shows s x
  have hstep : ∀ n s', n < 1024 → I n s' →
      wp (copyEntry (t * 1024) (u * 1024) n) (fun _ => I (n + 1)) (fun _ _ => False) s' := by
    rintro n s' hn ⟨A', htbl, hrest, hshow⟩
    refine wp_mono (copyEntry_spec A' (by rw [htbl]; exact ht) (by rw [htbl]; exact hu) hne hplace hn
      (hrest n (Nat.le_refl n))) ?_ (fun _ _ h => h)
    rintro _ s'' ⟨A'', htbl', hshow'⟩
    refine ⟨A'', htbl'.trans htbl, ?_, ?_⟩
    · intro j hj
      have h := hshow' (e, j)
      rw [if_neg (by intro heq; have := congrArg Prod.snd heq; simp only at this; omega)] at h
      have hnone := congrArg Prod.fst h
      unfold shows at hnone
      rw [hrest j (by omega)] at hnone
      exact Option.map_eq_none_iff.mp hnone
    · intro x
      rw [hshow']
      by_cases hx : x = (e, n)
      · subst hx
        rw [if_pos rfl, if_pos ⟨rfl, by omega⟩, hshow, if_neg (by tauto)]
      · rw [if_neg hx, hshow]
        have hiff : (x.1 = e ∧ x.2 < n + 1) ↔ (x.1 = e ∧ x.2 < n) := by
          constructor
          · rintro ⟨h1, h2⟩
            refine ⟨h1, ?_⟩
            by_contra hge
            exact hx (Prod.ext h1 (by omega))
          · rintro ⟨h1, h2⟩
            exact ⟨h1, by omega⟩
        simp only [hiff]
  have hloop := wp_upTo (E := fun _ _ => False) (n := 1024) hstep
    (show I 0 s from ⟨A, rfl, fun j _ => hempty j, fun x => by rw [if_neg (by omega)]⟩)
  refine wp_mono hloop ?_ (fun _ _ h => h)
  rintro _ s' ⟨A', htbl, -, hshow⟩
  refine ⟨A', htbl, ?_⟩
  rintro ⟨c, j⟩
  rw [hshow]
  by_cases hj : j < 1024
  · simp only [hj, and_true]
  · rw [if_neg (by tauto), shows_of_ge hj, shows_of_ge hj, ite_self]

/-- The outer loop of `copy_page_tables` between two ranges of the task
slots: it copies everything, or stops half-way for want of a page, which it
never does with `n` pages free, or panics because the destination was not
empty. -/
theorem copyDirs_spec (n : Nat) {fd td : Nat} (A : Acc lo hi s held) (hfd : 16 ≤ fd)
    (htd : 16 ≤ td) (hfn : fd + n ≤ 1024) (htn : td + n ≤ 1024) (hplace : fd % 16 = td % 16)
    (hdisj : fd + n ≤ td ∨ td + n ≤ fd) :
    wp (copyDirs 1024 n fd td) (fun r s' =>
      Acc lo hi s' held ∧ Outside td n s s' ∧
        (r = 0 ∧ (∀ k < n, ∀ j, shows s' (td + k, j) = shows s (fd + k, j)) ∨
          r = -1 ∧ freeFrames lo hi s < n))
      (fun e _ => e = .panic .copyAlreadyExist ∧ ∃ k < n, tblOf s (td + k) ≠ none) s := by
  induction n generalizing fd td s with
  | zero =>
    exact ⟨A, ⟨fun _ _ => rfl, fun _ _ => rfl⟩, Or.inl ⟨rfl, fun k hk => absurd hk (by omega)⟩⟩
  | succ n ih =>
    have hfdd : fd ∈ dirs := mem_dirs.mpr ⟨hfd, by omega⟩
    have htdd : td ∈ dirs := mem_dirs.mpr ⟨htd, by omega⟩
    rw [copyDirs]
    simp only [wp_bind, wp_load]
    rw [wp_ite]
    constructor
    · intro hp
      refine ⟨rfl, 0, by omega, ?_⟩
      intro hn
      rw [Nat.add_zero, tblOf_eq_none htdd, hp] at hn
      cases hn
    intro hnp
    have hn : tblOf s td = none := (tblOf_eq_none htdd).mpr (by simpa using hnp)
    simp only [wp_bind, wp_load]
    -- the rest of the loop, from a state in which the first entry is done
    have hrest : ∀ s3, Acc lo hi s3 held → Outside td 1 s s3 →
        freeFrames lo hi s ≤ freeFrames lo hi s3 + 1 →
        (∀ j, shows s3 (td, j) = shows s (fd, j)) →
        wp (copyDirs 1024 n (fd + 1) (td + 1)) (fun r s' =>
          Acc lo hi s' held ∧ Outside td (n + 1) s s' ∧
            (r = 0 ∧ (∀ k < n + 1, ∀ j, shows s' (td + k, j) = shows s (fd + k, j)) ∨
              r = -1 ∧ freeFrames lo hi s < n + 1))
          (fun e _ => e = .panic .copyAlreadyExist ∧ ∃ k < n + 1, tblOf s (td + k) ≠ none) s3 := by
      intro s3 A3 O3 hfree hfirst
      refine wp_mono (ih A3 (by omega) (by omega) (by omega) (by omega) (by omega) (by omega)) ?_ ?_
      · rintro r s' ⟨A', O', hr⟩
        refine ⟨A', ⟨?_, ?_⟩, ?_⟩
        · intro d hd
          rw [O'.tbl d (by omega), O3.tbl d (by omega)]
        · intro x hx
          rw [O'.cells x (by omega), O3.cells x (by omega)]
        · rcases hr with ⟨hr, hcopy⟩ | ⟨hr, hfew⟩
          · refine Or.inl ⟨hr, ?_⟩
            intro k hk j
            by_cases hk0 : k = 0
            · subst hk0
              rw [Nat.add_zero, Nat.add_zero, O'.cells (td, j) (by omega), hfirst]
            · have h := hcopy (k - 1) (by omega) j
              rw [show td + 1 + (k - 1) = td + k by omega,
                show fd + 1 + (k - 1) = fd + k by omega] at h
              rw [h, O3.cells (fd + k, j) (by simp only; omega)]
          · exact Or.inr ⟨hr, by omega⟩
      · rintro e s' ⟨he, k, hk, hne⟩
        refine ⟨he, k + 1, by omega, ?_⟩
        rw [O3.tbl _ (by omega), show td + 1 + k = td + (k + 1) by omega] at hne
        exact hne
    rw [wp_ite]
    constructor
    · intro hp
      have ht : tblOf s fd = some (frameOf (s.phys fd)) := tblOf_eq_some.mpr ⟨hfdd, hp, rfl⟩
      set t := frameOf (s.phys fd) with htdef
      have htable : pageAddr (s.phys fd) / 4 = t * 1024 := pageAddr_div _
      rw [htable, wp_bind]
      refine wp_mono (getFreePage_spec A) ?_ (fun _ _ h => h.elim)
      rintro r s1 (⟨rfl, rfl, hfull⟩ | ⟨f, rfl, hlo, hhi, h0, rfl, -⟩)
      · exact ⟨A, ⟨fun _ _ => rfl, fun _ _ => rfl⟩, Or.inr ⟨rfl, by omega⟩⟩
      have hlow := A.low
      have hdiv : f * 4096 / 4 = f * 1024 := by omega
      rw [if_neg (by omega), hdiv]
      simp only [wp_bind, wp_store]
      obtain ⟨A2, htbl2, hmap2, hview2⟩ := newTable_spec A htdd hn hlo hhi h0
      set s2 : Mem := { taken s f with
        phys := Function.update (taken s f).phys td (entry7 (f * 4096)) } with hs2
      have hshow2 : ∀ x, shows s2 x = shows s x :=
        fun x => shows_congr (congrFun hmap2 x) (congrFun hview2 x)
      have hne : fd ≠ td := by omega
      refine wp_mono (copyTable_spec A2 (d := fd) (e := td) (t := t) (u := f) ?_ ?_ hne hplace ?_) ?_
        (fun _ _ h => h.elim)
      · rw [htbl2, Function.update_of_ne hne]
        exact ht
      · rw [htbl2, Function.update_self]
      · intro j
        rw [hmap2]
        exact mapOf_eq_none_of_tbl hn
      · rintro _ s3 ⟨A3, htbl3, hshow3⟩
        refine hrest s3 A3 ⟨?_, ?_⟩ (A.freeFrames_le A3 {f} ?_ ?_) ?_
        · intro d hd
          rw [htbl3, htbl2, Function.update_of_ne (by omega)]
        · intro x hx
          rw [hshow3, if_neg (by omega), hshow2]
        · -- the new table is the one page that is gone
          intro d g hd hg
          rw [htbl3, htbl2] at hd
          by_cases hdt : d = td
          · rw [hdt, Function.update_self] at hd
            exact absurd (Finset.mem_singleton.mpr (Option.some.inj hd).symm) hg
          · rwa [Function.update_of_ne hdt] at hd
        · intro x g hx _
          have hframe := congrArg Prod.fst (hshow3 x)
          by_cases hxt : x.1 = td
          · rw [if_pos hxt, hshow2] at hframe
            exact ⟨(fd, x.2), hframe.symm.trans hx⟩
          · rw [if_neg hxt, hshow2] at hframe
            exact ⟨x, hframe.symm.trans hx⟩
        · intro j
          rw [hshow3, if_pos rfl, hshow2]
    · intro hp
      have hnf : tblOf s fd = none := (tblOf_eq_none hfdd).mpr (by simpa using hp)
      refine hrest s A ⟨fun _ _ => rfl, fun _ _ => rfl⟩ (Nat.le_succ _) ?_
      intro j
      rw [shows_of_tbl_none hn, shows_of_tbl_none hnf]

/-- The outer loop of `copy_page_tables` from slot 0: one page table with at
most 160 read-only entries for kernel pages, or nothing. -/
theorem copyDirs_boot_spec {td : Nat} (A : Acc lo hi s held) (htd : td ∈ dirs) :
    wp (copyDirs 160 1 0 td) (fun r s' =>
      Acc lo hi s' held ∧
        (r = 0 ∧ (∀ d, d ≠ td → tblOf s' d = tblOf s d) ∨ r = -1 ∧ s' = s))
      (fun e _ => e = .panic .copyAlreadyExist ∧ tblOf s td ≠ none) s := by
  have hlow := A.low
  rw [copyDirs]
  simp only [wp_bind, wp_load]
  rw [wp_ite]
  constructor
  · intro hp
    refine ⟨rfl, ?_⟩
    rw [Ne, tblOf_eq_none htd, hp]
    simp
  intro hnp
  have hn : tblOf s td = none := (tblOf_eq_none htd).mpr (by simpa using hnp)
  simp only [wp_bind, wp_load]
  rw [wp_ite]
  constructor
  · intro hp
    have htable : pageAddr (s.phys 0) / 4 = 1024 := by
      rw [pageAddr_eq, A.boot.1]
    rw [htable, wp_bind]
    refine wp_mono (getFreePage_spec A) ?_ (fun _ _ h => h.elim)
    rintro r s1 (⟨rfl, rfl, -⟩ | ⟨f, rfl, hlo, hhi, h0, rfl, -⟩)
    · exact ⟨A, Or.inr ⟨rfl, rfl⟩⟩
    have hdiv : f * 4096 / 4 = f * 1024 := by omega
    rw [if_neg (by omega), hdiv]
    simp only [wp_bind, wp_store]
    obtain ⟨A2, htbl2, hmap2, -⟩ := newTable_spec A htd hn hlo hhi h0
    set s2 : Mem := { taken s f with
      phys := Function.update (taken s f).phys td (entry7 (f * 4096)) } with hs2
    have hu2 : tblOf s2 td = some f := by rw [htbl2, Function.update_self]
    -- the entries from `n` on are still empty
    let I : Nat → Mem → Prop := fun n s' =>
      Acc lo hi s' held ∧ tblOf s' = tblOf s2 ∧ ∀ j, n ≤ j → mapOf s' (td, j) = none
    have hstep : ∀ n s', n < 160 → I n s' →
        wp (copyEntry 1024 (f * 1024) n) (fun _ => I (n + 1)) (fun _ _ => False) s' := by
      rintro n s' hn160 ⟨A', htbl, hrest⟩
      refine wp_mono (copyEntry_boot_spec A' (by rw [htbl]; exact hu2) hn160
        (hrest n (Nat.le_refl n))) ?_ (fun _ _ h => h)
      rintro _ s'' ⟨A'', htbl', hmap'⟩
      refine ⟨A'', htbl'.trans htbl, ?_⟩
      intro j hj
      rw [hmap' (td, j) (by intro h; have := congrArg Prod.snd h; simp only at this; omega)]
      exact hrest j (by omega)
    have hloop := wp_upTo (E := fun _ _ => False) (n := 160) hstep
      (show I 0 s2 from ⟨A2, rfl, fun j _ => by rw [hmap2]; exact mapOf_eq_none_of_tbl hn⟩)
    refine wp_mono hloop ?_ (fun _ _ h => h.elim)
    rintro _ s3 ⟨A3, htbl3, -⟩
    refine ⟨A3, Or.inl ⟨rfl, fun d hd => ?_⟩⟩
    rw [htbl3, htbl2, Function.update_of_ne hd]
  · intro _
    exact ⟨A, Or.inl ⟨rfl, fun _ _ => rfl⟩⟩

/-! ## Leaving -/

/-- The segments of a task in slot `slot`: both at the slot's base and within
its 64 MB; task 0 has the 640 KB of `INIT_TASK`. -/
structure Ldt.InSlot (cur : Ldt) (slot : Nat) : Prop where
  slot_lt : slot < 64
  code    : cur.codeBase = slot * 0x4000000
  data    : cur.dataBase = slot * 0x4000000
  limits  : cur.codeLimit ≤ cur.dataLimit
  top     : cur.dataLimit ≤ 0x4000000
  init    : slot = 0 → cur.dataLimit = 0xA0000

theorem dirEntry_slot {slot : Nat} (h : slot < 64) : dirEntry (slot * 0x4000000) = 16 * slot := by
  rw [dirEntry_eq]
  omega

theorem tables_le_slot {size : Nat} (h : size ≤ 0x4000000) : tables size ≤ 16 := by
  unfold tables
  omega

/-- A slot other than 0 lies above the kernel, aligned to a page table, and a
limit within it ends within the address space. -/
theorem slot_range {slot size : Nat} (hlt : slot < 64) (hslot : 1 ≤ slot) (hsize : size ≤ 0x4000000) :
    slot * 0x4000000 % 0x400000 = 0 ∧ 0x4000000 ≤ slot * 0x4000000 ∧
      slot * 0x4000000 < 0x100000000 ∧ slot * 0x4000000 + size ≤ 0x100000000 := by
  omega

/-- `free_page_tables` on a slot. -/
theorem freeSlot_spec (A : Acc lo hi s held) {slot size : Nat} (hlt : slot < 64) (hslot : 1 ≤ slot)
    (hsize : size ≤ 0x4000000) :
    wp (freePageTables (slot * 0x4000000) size) (fun _ s' =>
      Acc lo hi s' held ∧ Outside (16 * slot) (tables size) s s' ∧
        ∀ d, 16 * slot ≤ d → d < 16 * slot + tables size → tblOf s' d = none)
      (fun _ _ => False) s := by
  obtain ⟨h1, h2, h3, h4⟩ := slot_range hlt hslot hsize
  have hdir := dirEntry_slot hlt
  generalize slot * 0x4000000 = base at *
  refine wp_mono (freePageTables_spec A h1 h2 h3 h4) ?_ (fun _ _ h => h)
  rintro _ s' ⟨-, A', htbl, hmap, hview⟩
  rw [hdir] at htbl hmap hview
  refine ⟨A', ⟨?_, ?_⟩, ?_⟩
  · intro d hd
    rw [htbl, if_neg (by omega)]
  · intro x hx
    refine shows_congr ?_ ?_
    · rw [hmap, if_neg (by omega)]
    · rw [hview, if_neg (by omega)]
  · intro d hd1 hd2
    rw [htbl, if_pos ⟨hd1, hd2⟩]

theorem Outside.trans {td n m : Nat} {s s1 s2 : Mem} (h : Outside td n s s1)
    (h' : Outside td m s1 s2) (hnm : n ≤ m) : Outside td m s s2 where
  tbl := by
    intro d hd
    rw [h'.tbl d hd, h.tbl d (by omega)]
  cells := by
    intro x hx
    rw [h'.cells x hx, h.cells x (by omega)]

/-- The memory part of `do_exit` frees the slot: every page table within the
data limit is gone, nothing else changed. -/
theorem exitMm_spec (A : Acc lo hi s held) {cur : Ldt} {slot : Nat} (hcur : cur.InSlot slot)
    (hslot : 1 ≤ slot) :
    wp (exitMm cur) (fun _ s' =>
      Acc lo hi s' held ∧ Outside (16 * slot) (tables cur.dataLimit) s s' ∧
        ∀ d, 16 * slot ≤ d → d < 16 * slot + tables cur.dataLimit → tblOf s' d = none)
      (fun _ _ => False) s := by
  unfold exitMm
  rw [hcur.code, hcur.data, wp_bind]
  have hcode := Nat.le_trans hcur.limits hcur.top
  refine wp_mono (freeSlot_spec A hcur.slot_lt hslot hcode) ?_ (fun _ _ h => h)
  rintro _ s1 ⟨A1, hout1, -⟩
  rw [wp_bind]
  refine wp_mono (freeSlot_spec A1 hcur.slot_lt hslot hcur.top) ?_ (fun _ _ h => h)
  rintro _ s2 ⟨A2, hout2, hgone⟩
  exact ⟨A2, hout1.trans hout2 (tables_mono hcur.limits), hgone⟩

/-- `oom`: the task has left, with exact accounts. -/
theorem oom_spec (A : Acc lo hi s held) {cur : Ldt} {slot : Nat} (hcur : cur.InSlot slot)
    (hslot : 1 ≤ slot) (Q : Unit → Mem → Prop) :
    wp (oom cur) Q (fun e s' => e = .exit ∧ Acc lo hi s' held) s := by
  unfold oom
  rw [wp_bind]
  refine wp_mono (exitMm_spec A hcur hslot) ?_ (fun _ _ h => h.elim)
  rintro _ s' ⟨A', -⟩
  exact ⟨rfl, A'⟩

/-! ## Fork -/

/-- The segments `copy_mem` gives the child in slot `nr`. -/
def Ldt.child (cur : Ldt) (nr : Nat) : Ldt :=
  { cur with codeBase := nr * 0x4000000, dataBase := nr * 0x4000000 }

/-- What a fork into slot `nr` leaves behind, the parent in slot `a`: a copy
that shows what the parent shows, or an empty destination and `-ENOMEM`. -/
structure Forked (a nr limit : Nat) (s : Mem) (r : Int) (s' : Mem) : Prop where
  outside : Outside (16 * nr) (tables limit) s s'
  copied  : r = 0 ∧ (∀ k < tables limit, ∀ j, shows s' (16 * nr + k, j) = shows s (16 * a + k, j)) ∨
    r = -12 ∧ ∀ d, 16 * nr ≤ d → d < 16 * nr + tables limit → tblOf s' d = none

/-- `copy_page_tables` runs its outer loop over the directory entries of the
two ranges. -/
theorem copyPageTables_eq {base base' size : Nat} (h : base % 0x400000 = 0)
    (h' : base' % 0x400000 = 0) (hsize : size ≤ 0x4000000) :
    copyPageTables base base' size =
      copyDirs (if base = 0 then 0xA0 else 1024) (tables size) (dirEntry base) (dirEntry base') := by
  have htab : ((size + 0x3fffff) % 2 ^ 32) >>> 22 = tables size := tables_eq (by omega)
  unfold copyPageTables
  rw [if_neg (by rw [and_3fffff, and_3fffff]; omega), htab]

/-- `copy_page_tables` between two slots. -/
theorem copyPageTables_spec (A : Acc lo hi s held) {a nr size : Nat} (ha : 1 ≤ a) (ha' : a < 64)
    (hnr : 1 ≤ nr) (hnr' : nr < 64) (hne : nr ≠ a) (hsize : size ≤ 0x4000000) :
    wp (copyPageTables (a * 0x4000000) (nr * 0x4000000) size) (fun r s' =>
      Acc lo hi s' held ∧ Outside (16 * nr) (tables size) s s' ∧
        (r = 0 ∧ (∀ k < tables size, ∀ j,
          shows s' (16 * nr + k, j) = shows s (16 * a + k, j)) ∨
          r = -1 ∧ freeFrames lo hi s < tables size))
      (fun e _ => e = .panic .copyAlreadyExist ∧ ∃ k < tables size, tblOf s (16 * nr + k) ≠ none)
      s := by
  obtain ⟨h1, h2, -, -⟩ := slot_range ha' ha hsize
  obtain ⟨g1, -, -, -⟩ := slot_range hnr' hnr hsize
  have hle := tables_le_slot hsize
  rw [copyPageTables_eq h1 g1 hsize, if_neg (Nat.ne_of_gt (Nat.lt_of_lt_of_le (by decide) h2)),
    dirEntry_slot ha', dirEntry_slot hnr']
  exact copyDirs_spec (tables size) A (by omega) (by omega) (by omega) (by omega) (by omega)
    (by omega)

/-- **`copy_mem`** from a task slot. It fails only if there are fewer pages free
than the parent has page tables. -/
theorem copyMem_spec (A : Acc lo hi s held) {cur : Ldt} {a nr : Nat} (hcur : cur.InSlot a)
    (ha : 1 ≤ a) (hnr : 1 ≤ nr) (hnr' : nr < 64) (hne : nr ≠ a) :
    wp (copyMem nr cur) (fun r s' =>
      Acc lo hi s' held ∧ r.2 = cur.child nr ∧ Forked a nr cur.dataLimit s r.1 s' ∧
        (r.1 ≠ 0 → freeFrames lo hi s < tables cur.dataLimit))
      (fun e _ => e = .panic .copyAlreadyExist ∧
        ∃ k < tables cur.dataLimit, tblOf s (16 * nr + k) ≠ none) s := by
  unfold copyMem
  rw [if_neg (by rw [hcur.code, hcur.data]; simp), if_neg (Nat.not_lt.mpr hcur.limits),
    hcur.data, wp_bind]
  refine wp_mono (copyPageTables_spec A ha hcur.slot_lt hnr hnr' hne hcur.top) ?_ (fun _ _ h => h)
  rintro r s1 ⟨A1, hout, hr⟩
  rw [wp_ite]
  constructor
  · intro hr0
    rw [wp_bind]
    refine wp_mono (freeSlot_spec A1 hnr' hnr hcur.top) ?_ (fun _ _ h => h.elim)
    rintro _ s2 ⟨A2, hout2, hgone⟩
    exact ⟨A2, rfl, ⟨hout.trans hout2 (Nat.le_refl _), Or.inr ⟨rfl, hgone⟩⟩,
      fun _ => ((hr.resolve_left fun h => hr0 h.1).2)⟩
  · intro hr0
    rcases hr with ⟨rfl, hcopy⟩ | ⟨rfl, -⟩
    · exact ⟨A1, rfl, ⟨hout, Or.inl ⟨rfl, hcopy⟩⟩, fun h => absurd rfl h⟩
    · exact absurd (by decide) hr0

/-- **`copy_mem`** from slot 0, the first fork. -/
theorem copyMem_boot_spec (A : Acc lo hi s held) {cur : Ldt} {nr : Nat} (hcur : cur.InSlot 0)
    (hnr : 1 ≤ nr) (hnr' : nr < 64) :
    wp (copyMem nr cur) (fun r s' => Acc lo hi s' held ∧ r.2 = cur.child nr ∧
      (r.1 = 0 ∧ (∀ d, d ≠ 16 * nr → tblOf s' d = tblOf s d) ∨ r.1 = -12 ∧ Outside (16 * nr) (tables cur.dataLimit) s s' ∧
        ∀ d, 16 * nr ≤ d → d < 16 * nr + tables cur.dataLimit → tblOf s' d = none))
      (fun e _ => e = .panic .copyAlreadyExist ∧ tblOf s (16 * nr) ≠ none) s := by
  have hd : 16 * nr ∈ dirs := mem_dirs.mpr (by omega)
  have hlim : tables cur.dataLimit = 1 := by
    rw [hcur.init rfl]
    rfl
  obtain ⟨g1, -, -, -⟩ := slot_range hnr' hnr hcur.top
  have hcopy : wp (copyPageTables 0 (nr * 0x4000000) cur.dataLimit) (fun r s' =>
      Acc lo hi s' held ∧
        (r = 0 ∧ (∀ d, d ≠ 16 * nr → tblOf s' d = tblOf s d) ∨ r = -1 ∧ s' = s))
      (fun e _ => e = .panic .copyAlreadyExist ∧ tblOf s (16 * nr) ≠ none) s := by
    rw [copyPageTables_eq (Nat.zero_mod _) g1 hcur.top, if_pos rfl, hlim, dirEntry_slot hnr']
    exact copyDirs_boot_spec A hd
  unfold copyMem
  rw [if_neg (by rw [hcur.code, hcur.data]; simp), if_neg (Nat.not_lt.mpr hcur.limits),
    hcur.data, Nat.zero_mul, wp_bind]
  refine wp_mono hcopy ?_ (fun _ _ h => h)
  rintro r s1 ⟨A1, hr⟩
  rw [wp_ite]
  constructor
  · intro hr0
    obtain ⟨-, rfl⟩ := hr.resolve_left fun h => hr0 h.1
    rw [wp_bind]
    refine wp_mono (freeSlot_spec A1 hnr' hnr hcur.top) ?_ (fun _ _ h => h.elim)
    rintro _ s2 ⟨A2, hout, hgone⟩
    exact ⟨A2, rfl, Or.inr ⟨rfl, hout, hgone⟩⟩
  · intro hr0
    have hr0' : r = 0 := by simpa using hr0
    refine ⟨A1, rfl, Or.inl ⟨rfl, ?_⟩⟩
    rcases hr with ⟨-, htbl⟩ | ⟨hneg, -⟩
    · exact htbl
    · omega

theorem Ldt.InSlot.child {cur : Ldt} {a nr : Nat} (hcur : cur.InSlot a) (hnr : 1 ≤ nr)
    (hnr' : nr < 64) : (cur.child nr).InSlot nr where
  slot_lt := hnr'
  code := rfl
  data := rfl
  limits := hcur.limits
  top := hcur.top
  init := by
    intro h
    omega

end Linux011.Mm
