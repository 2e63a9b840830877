import Linux011.Mm.Alike

/-!
# Memory manager — a fork that fails

`copy_process` of `kernel/fork.c`, and what it leaves behind when
`get_free_page` runs out, for the page of the task or for one of the page tables
of the child.

* `Trace` — what a fork has done to the memory so far, in words;
  `copyPageTables_trace`, `freeSlot_trace` — `copy_page_tables` does no more, and
  `free_page_tables` neither;
* `counts_eq` — the counts follow from the entries;
* `fork_failed` — nothing is left but entries of the parent that may not be written
  where they might, and no task can tell.
-/

namespace Linux011.Mm

open Linux011.Lib

/-! ## What a fork does to the memory -/

/-- The memory was `s`, and a fork from slot `a` into slot `nr` has made it `t`: the
child's directory entries are clear or name frames that were free; frames that were
free are written, and entries of the parent may not be. -/
structure Trace (lo hi a nr : Nat) (s t : Mem) : Prop where
  high   : t.highMemory = s.highMemory
  counts : ∀ i, (i + 256 < lo ∨ hi ≤ i + 256) → t.memMap i = s.memMap i
  dir    : ∀ d, d / 16 = nr →
    t.phys d = 0#32 ∨ present (t.phys d) = true ∧ Free lo hi s (frameOf (t.phys d))
  word   : ∀ w, w / 16 ≠ nr → Free lo hi s (w / 1024) ∨ t.phys w = s.phys w ∨
    (∃ d, d / 16 = a ∧ tblOf s d = some (w / 1024)) ∧ present (s.phys w) = true ∧
      t.phys w = s.phys w &&& ~~~2#32

variable {lo hi a nr : Nat} {s t t' : Mem} {held held' : Nat → Nat}

/-- Only frames that were free are written, and counts of main memory. -/
theorem Trace.step (T : Trace lo hi a nr s t) (hlow : 256 ≤ lo) (hnr : nr < 64)
    (hhigh : t'.highMemory = t.highMemory)
    (hmem : ∀ i, (i + 256 < lo ∨ hi ≤ i + 256) → t'.memMap i = t.memMap i)
    (hphys : ∀ w, Free lo hi s (w / 1024) ∨ t'.phys w = t.phys w) : Trace lo hi a nr s t' := by
  refine ⟨hhigh.trans T.high, fun i hi => (hmem i hi).trans (T.counts i hi), fun d hd => ?_,
    fun w hw => ?_⟩
  · obtain hf | heq := hphys d
    · have := hf.1
      omega
    · rw [heq]
      exact T.dir d hd
  · obtain hf | heq := hphys w
    · exact Or.inl hf
    · rw [heq]
      exact T.word w hw

theorem trace_taken (T : Trace lo hi a nr s t) (hlow : 256 ≤ lo) (hnr : nr < 64) {f : Nat}
    (hf : Free lo hi s f) : Trace lo hi a nr s (taken t f) := by
  refine T.step hlow hnr rfl (fun i hout => ?_) fun w => ?_
  · have hne : i ≠ f - 256 := by
      have h1 := hf.1
      have h2 := hf.2.1
      omega
    rw [taken_memMap, Function.update_of_ne hne]
  · by_cases hw : w / 1024 = f
    · exact Or.inl (hw ▸ hf)
    · exact Or.inr (onlyFrame_taken f w hw)

/-- A directory entry of the child is written. -/
theorem trace_storeDir (T : Trace lo hi a nr s t) {d : Nat} {v : Word} (hd : d / 16 = nr)
    (hv : v = 0#32 ∨ present v = true ∧ Free lo hi s (frameOf v)) :
    Trace lo hi a nr s { t with phys := Function.update t.phys d v } := by
  refine ⟨T.high, T.counts, fun e he => ?_, fun w hw => ?_⟩
  · dsimp only
    by_cases hed : e = d
    · rw [hed, Function.update_self]
      exact hv
    · rw [Function.update_of_ne hed]
      exact T.dir e he
  · dsimp only
    rw [Function.update_of_ne (by rintro rfl; exact hw hd)]
    exact T.word w hw

/-- An entry of the parent may not be written any more. -/
theorem trace_lock (A : Acc lo hi s held) (T : Trace lo hi a nr s t) (hnr : nr < 64) {d j u : Nat}
    (hd : d / 16 = a) (hu : tblOf s d = some u) (hj : j < 1024)
    (hp : present (t.phys (u * 1024 + j)) = true) :
    Trace lo hi a nr s { t with
      phys := Function.update t.phys (u * 1024 + j) (t.phys (u * 1024 + j) &&& ~~~2#32) } := by
  have hlow := A.low
  have hmain := A.tbl_main hu
  have hdiv := word_div (u := u) hj
  have hfree : ¬ Free lo hi s u := fun h => (A.free_unused h.1 h.2.1 h.2.2).1 d hu
  have hword := T.word (u * 1024 + j) (by omega)
  rw [hdiv] at hword
  refine ⟨T.high, T.counts, fun e he => ?_, fun w hw => ?_⟩
  · dsimp only
    rw [Function.update_of_ne (by omega)]
    exact T.dir e he
  · dsimp only
    by_cases hwu : w = u * 1024 + j
    · rw [hwu, Function.update_self, hdiv]
      obtain hf | heq | ⟨-, hps, hlock⟩ := hword
      · exact absurd hf hfree
      · rw [heq] at hp ⊢
        exact Or.inr (Or.inr ⟨⟨d, hd, hu⟩, hp, rfl⟩)
      · refine Or.inr (Or.inr ⟨⟨d, hd, hu⟩, hps, ?_⟩)
        rw [hlock, BitVec.and_assoc, BitVec.and_self]
    · rw [Function.update_of_ne hwu]
      exact T.word w hw

/-! ## copy_page_tables -/

/-- What is copied from a page table: pages below 1 MB, or pages of main memory from
a table of the parent. -/
def Copied (lo hi a : Nat) (s : Mem) (u : Nat) (w : Word) : Prop :=
  present w = true → 256 ≤ frameOf w →
    (∃ d, d / 16 = a ∧ tblOf s d = some u) ∧ lo ≤ frameOf w ∧ frameOf w < hi

/-- One entry is copied; two words are written. -/
theorem copyEntry_trace (A : Acc lo hi s held) (T : Trace lo hi a nr s t) (hnr : nr < 64) {u v j : Nat}
    (hv : Free lo hi s v) (hj : j < 1024) (hcopied : Copied lo hi a s u (t.phys (u * 1024 + j))) :
    wp (copyEntry (u * 1024) (v * 1024) j) (fun _ t' => Trace lo hi a nr s t' ∧
      ∀ w, w ≠ u * 1024 + j → w / 1024 ≠ v → t'.phys w = t.phys w) (fun _ _ => True) t := by
  have hlow := A.low
  have hdiv := word_div (u := v) hj
  unfold copyEntry
  simp only [wp_bind, wp_load]
  by_cases hp : present (t.phys (u * 1024 + j)) = true
  · rw [if_pos hp]
    generalize hw : t.phys (u * 1024 + j) = w at hp hcopied
    have hp' : present (w &&& ~~~2#32) = true := by rw [present_and_not_two]; exact hp
    simp only [wp_bind, wp_store]
    have T₁ : Trace lo hi a nr s { t with
        phys := Function.update t.phys (v * 1024 + j) (w &&& ~~~2#32) } := by
      refine T.step hlow hnr rfl (fun _ _ => rfl) fun x => ?_
      by_cases hx : x = v * 1024 + j
      · left
        rw [hx, hdiv]
        exact hv
      · exact Or.inr (Function.update_of_ne hx ..)
    by_cases hgt : (w &&& ~~~2#32).toNat > lowMem
    · have hf : 256 ≤ frameOf w := by
        rw [← frameOf_and_not_two w]
        exact (lowMem_lt_iff hp').mp hgt
      obtain ⟨⟨d, hd, hu⟩, hlo, hhi⟩ := hcopied hp hf
      have hne : u * 1024 + j ≠ v * 1024 + j := by
        intro heq
        have huv : u = v := by omega
        exact (A.free_unused hv.1 hv.2.1 hv.2.2).1 d (huv ▸ hu)
      have hsame : Function.update t.phys (v * 1024 + j) (w &&& ~~~2#32) (u * 1024 + j) = w := by
        rw [Function.update_of_ne hne, hw]
      have hnri : ((w &&& ~~~2#32).toNat - lowMem) >>> 12 = frameOf w - 256 := by
        rw [← frameOf_and_not_two w, Nat.shiftRight_eq_div_pow]
        unfold frameOf lowMem
        omega
      have T₂ := trace_lock A T₁ hnr hd hu hj (by dsimp only; rw [hsame]; exact hp)
      dsimp only at T₂
      rw [hsame] at T₂
      rw [if_pos hgt, hnri]
      simp only [wp_bind, wp_get, wp_store, wp_setMemMap]
      refine ⟨T₂.step hlow hnr rfl (fun i hout => ?_) fun _ => Or.inr rfl, fun x hx hxv => ?_⟩
      · dsimp only
        rw [Function.update_of_ne (by omega)]
      · rw [Function.update_of_ne hx, Function.update_of_ne (by rintro rfl; exact hxv hdiv)]
    · rw [if_neg hgt]
      refine ⟨T₁, fun x _ hxv => ?_⟩
      exact Function.update_of_ne (by rintro rfl; exact hxv hdiv) ..
  · rw [if_neg hp]
    exact ⟨T, fun _ _ _ => rfl⟩

/-- The entries of a page table, up to `n`. -/
theorem copyTable_trace (A : Acc lo hi s held) (T : Trace lo hi a nr s t) (hnr : nr < 64) {u v n : Nat}
    (hv : Free lo hi s v) (huv : u ≠ v) (hn : n ≤ 1024)
    (hcopied : ∀ j, j < n → Copied lo hi a s u (t.phys (u * 1024 + j))) :
    wp (upTo n (copyEntry (u * 1024) (v * 1024))) (fun _ t' => Trace lo hi a nr s t')
      (fun _ _ => True) t := by
  -- the entries that are still to be copied are as they were
  let I : Nat → Mem → Prop := fun i t' => Trace lo hi a nr s t' ∧
    ∀ j, i ≤ j → j < n → t'.phys (u * 1024 + j) = t.phys (u * 1024 + j)
  have hstep : ∀ i t', i < n → I i t' →
      wp (copyEntry (u * 1024) (v * 1024) i) (fun _ => I (i + 1)) (fun _ _ => True) t' := by
    intro i t' hi ⟨T', hrest⟩
    have hentry := hcopied i hi
    rw [← hrest i (Nat.le_refl i) hi] at hentry
    refine wp_mono (copyEntry_trace A T' hnr hv (by omega) hentry) ?_ fun _ _ h => h
    intro _ t'' ⟨T'', hsame⟩
    refine ⟨T'', fun j hj hjn => ?_⟩
    rw [hsame _ (by omega) (by rw [word_div (by omega)]; exact huv)]
    exact hrest j (by omega) hjn
  exact wp_mono (wp_upTo hstep (show I 0 t from ⟨T, fun _ _ _ => rfl⟩)) (fun _ _ h => h.1)
    fun _ _ h => h

/-- A frame that is free now was free before: what used it still does. -/
theorem free_back (A₀ : Acc lo hi s held) (A : Acc lo hi t held') (O : Outside (16 * nr) 16 s t)
    (hheld : ∀ f, held f ≤ held' f) (hnone : ∀ d, d / 16 = nr → tblOf s d = none) {f : Nat}
    (hf : Free lo hi t f) : Free lo hi s f := by
  have hlow := A.low
  obtain ⟨hlo, hhi, h0⟩ := hf
  obtain ⟨hnt, hnm, hh⟩ := A.free_unused hlo hhi h0
  refine ⟨hlo, hhi, ?_⟩
  have hcount := A₀.inv.count f hlo hhi
  rw [space_cnt (by omega)] at hcount
  have hheld0 : (space s held).held f = 0 := Nat.le_zero.mp (hh ▸ hheld f)
  have htbl0 : (space s held).tblRefs f = 0 := by
    by_contra hpos
    obtain ⟨d, -, hd⟩ := refs_pos_iff.mp (Nat.pos_of_ne_zero hpos)
    have hd : tblOf s d = some f := hd
    by_cases hin : d / 16 = nr
    · rw [hnone d hin] at hd
      cases hd
    · exact hnt d ((O.tbl d (by omega)).trans hd)
  have hmap0 : (space s held).mapRefs f = 0 := by
    by_contra hpos
    obtain ⟨x, -, hx⟩ := refs_pos_iff.mp (Nat.pos_of_ne_zero hpos)
    have hx : (mapOf s x).map Prod.fst = some f := hx
    by_cases hin : x.1 / 16 = nr
    · rw [← Prod.eta x, mapOf_eq_none_of_tbl (hnone _ hin)] at hx
      cases hx
    · have hshow := congrArg Prod.fst (O.cells x (by omega))
      unfold shows at hshow
      dsimp only at hshow
      rw [hx] at hshow
      obtain ⟨⟨g, w⟩, hm, hg⟩ := Option.map_eq_some_iff.mp hshow
      dsimp only at hg
      exact hnm x w (hg ▸ hm)
  omega

/-- The entries of a table of the parent, as they are now. -/
theorem copied_of_acc (A : Acc lo hi t held) {d u j : Nat} (hd : d / 16 = a)
    (hu : tblOf t d = some u) (hs : tblOf s d = some u) (hj : j < 1024) :
    Copied lo hi a s u (t.phys (u * 1024 + j)) := by
  intro hp hf
  have hm := mapOf_of_tbl hu hj
  rw [entryOf, if_pos hp] at hm
  obtain ⟨hlo, hhi, -, -⟩ := A.cnt_mapped hm hf
  exact ⟨⟨d, hd, hs⟩, hlo, hhi⟩

/-- A new page table of the child. -/
theorem newTable_trace (T : Trace lo hi a nr s t) (hlow : 256 ≤ lo) (htop : hi ≤ 4096) (hnr : nr < 64)
    {d f : Nat} (hd : d / 16 = nr) (hf : Free lo hi s f) :
    Trace lo hi a nr s { taken t f with
      phys := Function.update (taken t f).phys d (entry7 (f * 4096)) } := by
  have hmain := hf.2.1
  refine trace_storeDir (trace_taken T hlow hnr hf) hd (Or.inr ⟨present_entry7 (by omega), ?_⟩)
  rw [frameOf_entry7 (by omega)]
  exact hf

/-- The outer loop of `copy_page_tables`, between two slots. -/
theorem copyDirs_trace (A₀ : Acc lo hi s held) (hheld : ∀ f, held f ≤ held' f) (ha : 1 ≤ a)
    (ha' : a < 64) (hnr : 1 ≤ nr) (hnr' : nr < 64) (hne : nr ≠ a)
    (hnone : ∀ d, d / 16 = nr → tblOf s d = none) (n : Nat) {fd td : Nat} (hfd : 16 * a ≤ fd)
    (hfn : fd + n ≤ 16 * a + 16) (htd : 16 * nr ≤ td) (htn : td + n ≤ 16 * nr + 16)
    (hplace : fd % 16 = td % 16) (A : Acc lo hi t held') (O : Outside (16 * nr) 16 s t)
    (T : Trace lo hi a nr s t) :
    wp (copyDirs 1024 n fd td) (fun _ t' => Trace lo hi a nr s t') (fun _ _ => True) t := by
  induction n generalizing fd td t with
  | zero => exact T
  | succ n ih =>
    have hlow := A.low
    have hfdd : fd ∈ dirs := mem_dirs.mpr (by omega)
    have htdd : td ∈ dirs := mem_dirs.mpr (by omega)
    have hne' : fd ≠ td := by omega
    rw [copyDirs]
    simp only [wp_bind, wp_load]
    by_cases hpt : present (t.phys td) = true
    · rw [if_pos hpt]
      trivial
    have hn : tblOf t td = none := (tblOf_eq_none htdd).mpr (by simpa using hpt)
    rw [if_neg hpt]
    simp only [wp_bind, wp_load]
    by_cases hpf : present (t.phys fd) = true
    · have hu : tblOf t fd = some (frameOf (t.phys fd)) := tblOf_eq_some.mpr ⟨hfdd, hpf, rfl⟩
      have hs := (O.tbl fd (by omega)).symm.trans hu
      have htable := pageAddr_div (t.phys fd)
      generalize frameOf (t.phys fd) = u at hu hs htable
      rw [if_pos hpf, htable, wp_bind]
      refine wp_mono (getFreePage_spec A) ?_ fun _ _ h => h.elim
      rintro r t₁ (⟨rfl, rfl, -⟩ | ⟨f, rfl, hlo, hhi, h0, rfl, -⟩)
      · exact T
      have hdiv : f * 4096 / 4 = f * 1024 := Nat.mul_div_assoc f (by decide)
      rw [if_neg (by omega), hdiv]
      simp only [wp_bind, wp_store]
      have hf : Free lo hi s f := free_back A₀ A O hheld hnone ⟨hlo, hhi, h0⟩
      obtain ⟨A₂, htbl₂, hmap₂, hview₂⟩ := newTable_spec A htdd hn hlo hhi h0
      have T₂ := newTable_trace T hlow A.top hnr' (d := td) (by omega) hf
      have hu₂ : tblOf { taken t f with
          phys := Function.update (taken t f).phys td (entry7 (f * 4096)) } fd = some u := by
        rw [htbl₂, Function.update_of_ne hne']
        exact hu
      have hempty : ∀ j, mapOf { taken t f with
          phys := Function.update (taken t f).phys td (entry7 (f * 4096)) } (td, j) = none := by
        intro j
        rw [hmap₂]
        exact mapOf_eq_none_of_tbl hn
      have huf : u ≠ f := by
        rintro rfl
        exact (A.free_unused hlo hhi h0).1 fd hu
      have hspec := copyTable_spec A₂ hu₂ (by rw [htbl₂, Function.update_self]) hne' hplace hempty
      have htrace := copyTable_trace A₀ T₂ hnr' hf huf (Nat.le_refl 1024) fun j hj =>
        copied_of_acc A₂ (by omega) hu₂ hs hj
      refine wp_mono (wp_and hspec htrace) ?_ fun _ _ _ => trivial
      intro _ t₃ ⟨⟨A₃, htbl₃, hshow₃⟩, T₃⟩
      refine ih (by omega) (by omega) (by omega) (by omega) (by omega) A₃ ⟨fun d hd => ?_, fun x hx => ?_⟩ T₃
      · rw [htbl₃, htbl₂, Function.update_of_ne (by omega)]
        exact O.tbl d hd
      · rw [hshow₃, if_neg (by omega), shows_congr (congrFun hmap₂ x) (congrFun hview₂ x)]
        exact O.cells x hx
    · rw [if_neg hpf]
      exact ih (by omega) (by omega) (by omega) (by omega) (by omega) A O T

/-- The same from slot 0: the first page table of the kernel. -/
theorem copyDirs_boot_trace (A₀ : Acc lo hi s held) (hheld : ∀ f, held f ≤ held' f) (hnr : 1 ≤ nr)
    (hnr' : nr < 64) (hnone : ∀ d, d / 16 = nr → tblOf s d = none) (A : Acc lo hi t held')
    (O : Outside (16 * nr) 16 s t) (T : Trace lo hi a nr s t) :
    wp (copyDirs 160 1 0 (16 * nr)) (fun _ t' => Trace lo hi a nr s t') (fun _ _ => True) t := by
  have hlow := A.low
  rw [copyDirs]
  simp only [wp_bind, wp_load]
  by_cases hpt : present (t.phys (16 * nr)) = true
  · rw [if_pos hpt]
    trivial
  rw [if_neg hpt]
  simp only [wp_bind, wp_load]
  by_cases hpf : present (t.phys 0) = true
  · have htable : pageAddr (t.phys 0) / 4 = 1 * 1024 := by
      rw [pageAddr_eq, A.boot.1]
    rw [if_pos hpf, htable, wp_bind]
    refine wp_mono (getFreePage_spec A) ?_ fun _ _ h => h.elim
    rintro r t₁ (⟨rfl, rfl, -⟩ | ⟨f, rfl, hlo, hhi, h0, rfl, -⟩)
    · exact T
    have hdiv : f * 4096 / 4 = f * 1024 := Nat.mul_div_assoc f (by decide)
    rw [if_neg (by omega), hdiv]
    simp only [wp_bind, wp_store]
    have hf : Free lo hi s f := free_back A₀ A O hheld hnone ⟨hlo, hhi, h0⟩
    have T₂ := newTable_trace T hlow A.top hnr' (d := 16 * nr) (by omega) hf
    refine wp_mono (copyTable_trace A₀ T₂ hnr' hf (u := 1) (by omega) (by decide) fun j hj _ hframe => ?_)
      (fun _ _ h => h) fun _ _ h => h
    -- the pages of the kernel are not counted
    have hword := A.boot.2 j hj
    dsimp only at hframe
    rw [Nat.one_mul, Function.update_of_ne (by omega), onlyFrame_taken f _ (by omega)] at hframe
    omega
  · rw [if_neg hpf]
    exact T

/-! ## free_page_tables -/

theorem freePage_trace (T : Trace lo hi a nr s t) (hlow : 256 ≤ lo) (hnr : nr < 64) {f : Nat}
    (hf : f < 256 ∨ lo ≤ f ∧ f < hi) :
    wp (freePage (f * 4096)) (fun _ t' => Trace lo hi a nr s t' ∧ t'.phys = t.phys)
      (fun _ _ => True) t := by
  obtain hf | ⟨hlo, hhi⟩ := hf
  · rw [wp_of_ok (freePage_low hf)]
    exact ⟨T, rfl⟩
  · have hpage : (f * 4096 - lowMem) >>> 12 = f - 256 := by
      rw [Nat.shiftRight_eq_div_pow]
      unfold lowMem
      omega
    unfold freePage
    rw [if_neg (by unfold lowMem; omega), hpage]
    simp only [wp_bind, wp_get, wp_ite, wp_throw, wp_setMemMap, wp_pure]
    refine ⟨fun _ => trivial, fun _ => ⟨fun _ => ⟨?_, trivial⟩, fun _ => trivial⟩⟩
    refine T.step hlow hnr rfl (fun i hout => ?_) fun _ => Or.inr rfl
    dsimp only
    rw [Function.update_of_ne (by omega)]

/-- An entry in a page table that was free. -/
theorem freeEntry_trace (A : Acc lo hi t held') (T : Trace lo hi a nr s t) (hnr : nr < 64)
    {d j u : Nat} (hu : tblOf t d = some u) (hf : Free lo hi s u) (hj : j < 1024) :
    wp (freeEntry (u * 1024) j) (fun _ t' => Trace lo hi a nr s t') (fun _ _ => True) t := by
  have hlow := A.low
  have hm := mapOf_of_tbl hu hj
  have hcell : (d, j) ∈ cells := mem_cells.mpr ⟨(tblOf_eq_some.mp hu).1, hj⟩
  have hclear : ∀ t₁, Trace lo hi a nr s t₁ → Trace lo hi a nr s { t₁ with
      phys := Function.update t₁.phys (u * 1024 + j) 0#32 } := by
    intro t₁ T₁
    refine T₁.step hlow hnr rfl (fun _ _ => rfl) fun w => ?_
    by_cases hw : w = u * 1024 + j
    · left
      rw [hw, word_div hj]
      exact hf
    · exact Or.inr (Function.update_of_ne hw ..)
  unfold freeEntry
  simp only [wp_bind, wp_load]
  by_cases hp : present (t.phys (u * 1024 + j)) = true
  · rw [entryOf, if_pos hp] at hm
    rw [if_pos hp, pageAddr_eq]
    simp only [wp_bind, wp_store]
    refine wp_mono (freePage_trace T hlow hnr (A.inv.mapMain (d, j) hcell _ _ hm)) ?_ fun _ _ h => h
    rintro _ t₁ ⟨T₁, _⟩
    exact hclear t₁ T₁
  · rw [if_neg hp]
    exact hclear t T

/-- A page table of the child. -/
theorem freeDir_trace (A : Acc lo hi t held') (T : Trace lo hi a nr s t) (hnr : 1 ≤ nr)
    (hnr' : nr < 64) {d : Nat} (hd : d / 16 = nr) :
    wp (freeDir d) (fun _ t' => Trace lo hi a nr s t') (fun _ _ => True) t := by
  have hlow := A.low
  unfold freeDir
  simp only [wp_bind, wp_load]
  by_cases hp : present (t.phys d) = true
  · have hu : tblOf t d = some (frameOf (t.phys d)) :=
      tblOf_eq_some.mpr ⟨mem_dirs.mpr (by omega), hp, rfl⟩
    have hf : Free lo hi s (frameOf (t.phys d)) := by
      obtain h0 | ⟨-, hf⟩ := T.dir d hd
      · rw [h0, present_zero] at hp
        cases hp
      · exact hf
    have htable := pageAddr_div (t.phys d)
    generalize frameOf (t.phys d) = u at hu hf htable
    -- the directory entry stays until the table has been walked
    let I : Nat → Mem → Prop := fun _ t' =>
      Acc lo hi t' held' ∧ tblOf t' = tblOf t ∧ Trace lo hi a nr s t'
    have hstep : ∀ i t', i < 1024 → I i t' →
        wp (freeEntry (u * 1024) i) (fun _ => I (i + 1)) (fun _ _ => True) t' := by
      rintro i t' hi ⟨A', htbl, T'⟩
      have hu' := (congrFun htbl d).trans hu
      refine wp_mono (wp_and (freeEntry_spec A' hu' hi) (freeEntry_trace A' T' hnr' hu' hf hi)) ?_
        fun _ _ _ => trivial
      rintro _ t'' ⟨⟨A'', htbl', _⟩, T''⟩
      exact ⟨A'', htbl'.trans htbl, T''⟩
    rw [if_pos hp, htable]
    simp only [wp_bind, wp_load, wp_store]
    refine wp_mono (wp_upTo hstep (show I 0 t from ⟨A, rfl, T⟩)) ?_ fun _ _ h => h
    rintro _ t₁ ⟨A₁, htbl₁, T₁⟩
    have hframe := (tblOf_eq_some.mp ((congrFun htbl₁ d).trans hu)).2.2
    rw [pageAddr_eq, hframe]
    refine wp_mono (freePage_trace T₁ hlow hnr' (Or.inr ⟨hf.1, hf.2.1⟩)) ?_ fun _ _ h => h
    rintro _ t₂ ⟨T₂, _⟩
    exact trace_storeDir T₂ hd (Or.inl rfl)
  · rw [if_neg hp]
    exact T

/-- `free_page_tables` on the slot of the child. -/
theorem freeSlot_trace (A : Acc lo hi t held') (T : Trace lo hi a nr s t) (hnr : 1 ≤ nr)
    (hnr' : nr < 64) {size : Nat} (hsize : size ≤ 0x4000000) :
    wp (freePageTables (nr * 0x4000000) size) (fun _ t' => Trace lo hi a nr s t')
      (fun _ _ => True) t := by
  obtain ⟨h1, h2, -, -⟩ := slot_range hnr' hnr hsize
  have hle := tables_le_slot hsize
  have hdir := dirEntry_slot hnr'
  generalize nr * 0x4000000 = base at h1 h2 hdir
  unfold freePageTables
  rw [if_neg (by rw [and_3fffff]; omega), if_neg (by omega), tables_eq (by omega), hdir]
  simp only [wp_bind, wp_pure]
  let I : Nat → Mem → Prop := fun _ t' => Acc lo hi t' held' ∧ Trace lo hi a nr s t'
  have hstep : ∀ i t', i < tables size → I i t' →
      wp (freeDir (16 * nr + i)) (fun _ => I (i + 1)) (fun _ _ => True) t' := by
    rintro i t' hi ⟨A', T'⟩
    have hspec := freeDir_spec A' (d := 16 * nr + i) (mem_dirs.mpr (by omega))
    refine wp_mono (wp_and hspec (freeDir_trace A' T' hnr hnr' (by omega))) ?_ fun _ _ _ => trivial
    rintro _ t'' ⟨⟨A'', _⟩, T''⟩
    exact ⟨A'', T''⟩
  exact wp_mono (wp_upTo hstep (show I 0 t from ⟨A, T⟩)) (fun _ _ h => h.2) fun _ _ h => h

/-! ## copy_mem -/

/-- `copy_page_tables` from any slot. -/
theorem copyPageTables_trace (A₀ : Acc lo hi s held) (hheld : ∀ f, held f ≤ held' f) (ha : a < 64)
    (hnr : 1 ≤ nr) (hnr' : nr < 64) (hne : nr ≠ a) (hnone : ∀ d, d / 16 = nr → tblOf s d = none)
    (A : Acc lo hi t held') (O : Outside (16 * nr) 16 s t) (T : Trace lo hi a nr s t) {size : Nat}
    (hsize : size ≤ 0x4000000) (hboot : a = 0 → size = 0xA0000) :
    wp (copyPageTables (a * 0x4000000) (nr * 0x4000000) size)
      (fun _ t' => Acc lo hi t' held' ∧ Trace lo hi a nr s t') (fun _ _ => True) t := by
  obtain ⟨g1, -, -, -⟩ := slot_range hnr' hnr hsize
  have hle := tables_le_slot hsize
  by_cases h0 : a = 0
  · rw [h0, hboot h0, Nat.zero_mul, copyPageTables_eq (Nat.zero_mod _) g1 (by decide), if_pos rfl,
      dirEntry_slot hnr']
    have hd : 16 * nr ∈ dirs := mem_dirs.mpr (by omega)
    subst h0
    refine wp_mono (wp_and (copyDirs_boot_spec A hd) (copyDirs_boot_trace A₀ hheld hnr hnr' hnone A O T))
      ?_ fun _ _ _ => trivial
    intro _ t' ⟨⟨A', _⟩, T'⟩
    exact ⟨A', T'⟩
  · have ha1 : 1 ≤ a := Nat.pos_of_ne_zero h0
    obtain ⟨f1, f2, -, -⟩ := slot_range ha ha1 hsize
    have htrace : wp (copyPageTables (a * 0x4000000) (nr * 0x4000000) size)
        (fun _ t' => Trace lo hi a nr s t') (fun _ _ => True) t := by
      rw [copyPageTables_eq f1 g1 hsize, if_neg (Nat.ne_of_gt (Nat.lt_of_lt_of_le (by decide) f2)),
        dirEntry_slot ha, dirEntry_slot hnr']
      exact copyDirs_trace A₀ hheld ha1 ha hnr hnr' hne hnone (tables size) (Nat.le_refl _)
        (by omega) (Nat.le_refl _) (by omega) (by omega) A O T
    refine wp_mono (wp_and (copyPageTables_spec A ha1 ha hnr hnr' hne hsize) htrace) ?_
      fun _ _ _ => trivial
    intro _ t' ⟨⟨A', _⟩, T'⟩
    exact ⟨A', T'⟩

/-- The slot of the child is empty again, and nothing else is different. -/
structure Undone (nr : Nat) (s t : Mem) : Prop where
  outside : Outside (16 * nr) 16 s t
  gone    : ∀ d, d / 16 = nr → tblOf t d = none

/-- What follows from the words of the memory. -/
theorem Undone.of_phys (U : Undone nr s t) {t' : Mem} (hphys : t'.phys = t.phys) : Undone nr s t' := by
  have htbl : tblOf t' = tblOf t := by
    unfold tblOf
    rw [hphys]
  have hmap : mapOf t' = mapOf t := by
    unfold mapOf
    rw [htbl, hphys]
  have hshow : ∀ x, shows t' x = shows t x := by
    intro x
    unfold shows views pageView contents
    rw [hmap, hphys]
  exact ⟨⟨fun d hd => (congrFun htbl d).trans (U.outside.tbl d hd),
    fun x hx => (hshow x).trans (U.outside.cells x hx)⟩, fun d hd => (congrFun htbl d).trans (U.gone d hd)⟩

/-- **`copy_mem`** copies, or leaves the slot of the child empty. -/
theorem copyMem_trace (A₀ : Acc lo hi s held) (hheld : ∀ f, held f ≤ held' f) {cur : Ldt}
    (hcur : cur.InSlot a) (hnr : 1 ≤ nr) (hnr' : nr < 64) (hne : nr ≠ a)
    (hnone : ∀ d, d / 16 = nr → tblOf s d = none) (A : Acc lo hi t held')
    (htbl : tblOf t = tblOf s) (hshow : ∀ x, shows t x = shows s x) (T : Trace lo hi a nr s t) :
    wp (copyMem nr cur) (fun r t' => Acc lo hi t' held' ∧ Trace lo hi a nr s t' ∧
      r.2 = cur.child nr ∧ (r.1 = 0 ∨ Undone nr s t')) (fun _ _ => False) t := by
  have hle := tables_le_slot hcur.top
  have hnonet : ∀ d, d / 16 = nr → tblOf t d = none := by
    rw [htbl]
    exact hnone
  have O : Outside (16 * nr) 16 s t := ⟨fun d _ => congrFun htbl d, fun x _ => hshow x⟩
  -- the accounts, and that nothing is in the way
  have hundone : ∀ t', Outside (16 * nr) (tables cur.dataLimit) t t' →
      (∀ d, 16 * nr ≤ d → d < 16 * nr + tables cur.dataLimit → tblOf t' d = none) →
      Undone nr s t' := by
    intro t' O' hgone
    refine ⟨O.trans ⟨fun d hd => O'.tbl d (by omega), fun x hx => O'.cells x (by omega)⟩ (Nat.le_refl _),
      fun d hd => ?_⟩
    by_cases hlt : d < 16 * nr + tables cur.dataLimit
    · exact hgone d (by omega) hlt
    · rw [O'.tbl d (by omega)]
      exact hnonet d hd
  have hspec : wp (copyMem nr cur) (fun r t' => Acc lo hi t' held' ∧ r.2 = cur.child nr ∧
      (r.1 = 0 ∨ Undone nr s t')) (fun _ _ => False) t := by
    by_cases h0 : a = 0
    · subst h0
      refine wp_mono (copyMem_boot_spec A hcur hnr hnr') ?_ fun _ _ h => h.2 (hnonet _ (by omega))
      intro r t' ⟨A', hchild, hr⟩
      exact ⟨A', hchild, hr.imp And.left fun h => hundone t' h.2.1 h.2.2⟩
    · refine wp_mono (copyMem_spec A hcur (by omega) hnr hnr' hne) ?_ ?_
      · intro r t' ⟨A', hchild, hforked, _⟩
        exact ⟨A', hchild, hforked.copied.imp And.left fun h => hundone t' hforked.outside h.2⟩
      · intro _ _ ⟨_, k, hk, hthere⟩
        exact hthere (hnonet _ (by omega))
  have htrace : wp (copyMem nr cur) (fun _ t' => Trace lo hi a nr s t') (fun _ _ => True) t := by
    unfold copyMem
    rw [if_neg (by rw [hcur.code, hcur.data]; simp), if_neg (Nat.not_lt.mpr hcur.limits),
      hcur.data, wp_bind]
    refine wp_mono (copyPageTables_trace A₀ hheld hcur.slot_lt hnr hnr' hne hnone A O T hcur.top
      hcur.init) ?_ fun _ _ h => h
    intro r t₁ ⟨A₁, T₁⟩
    by_cases hr : r ≠ 0
    · rw [if_pos hr, wp_bind]
      exact freeSlot_trace A₁ T₁ hnr hnr' hcur.top
    · rw [if_neg hr]
      exact T₁
  refine wp_mono (wp_and hspec htrace) ?_ fun _ _ h => h.1
  intro r t' ⟨⟨A', hchild, hr⟩, T'⟩
  exact ⟨A', T', hchild, hr⟩

/-! ## The end of it -/

/-- The counts follow from the entries. -/
theorem counts_eq (A : Acc lo hi s held) (A' : Acc lo hi t held) (htbl : tblOf t = tblOf s)
    (hmap : ∀ x, (mapOf t x).map Prod.fst = (mapOf s x).map Prod.fst)
    (hout : ∀ i, (i + 256 < lo ∨ hi ≤ i + 256) → t.memMap i = s.memMap i) :
    t.memMap = s.memMap := by
  have hlow := A.low
  funext i
  by_cases hi : i + 256 < lo ∨ hi ≤ i + 256
  · exact hout i hi
  · have hcount := A.inv.count (i + 256) (by omega) (by omega)
    have hcount' := A'.inv.count (i + 256) (by omega) (by omega)
    rw [space_cnt (by omega), Nat.add_sub_cancel] at hcount hcount'
    have hrefs : (space t held).mapRefs (i + 256) = (space s held).mapRefs (i + 256) := by
      show refs cells (fun x => (mapOf t x).map Prod.fst) _ = refs cells (fun x => (mapOf s x).map Prod.fst) _
      rw [funext hmap]
    have htabs : (space t held).tblRefs (i + 256) = (space s held).tblRefs (i + 256) := by
      show refs dirs (tblOf t) _ = refs dirs (tblOf s) _
      rw [htbl]
    rw [hcount, hcount', hrefs, htabs]
    rfl

/-- What is left when the page of the task has been freed. -/
theorem alike_of_undone (A : Acc lo hi s held) (A' : Acc lo hi t held) (hnr : nr < 64)
    (hnr' : 1 ≤ nr) (T : Trace lo hi a nr s t) (U : Undone nr s t)
    (hclear : ∀ d, d / 16 = nr → s.phys d = 0#32) :
    Alike lo hi s t ∧ ∀ d, d / 16 = nr → t.phys d = 0#32 := by
  have hnone : ∀ d, d / 16 = nr → tblOf s d = none := by
    intro d hd
    rw [tblOf_eq_none (mem_dirs.mpr (by omega)), hclear d hd, present_zero]
  have hgone : ∀ d, d / 16 = nr → t.phys d = 0#32 := by
    intro d hd
    have hn := (tblOf_eq_none (mem_dirs.mpr (by omega))).mp (U.gone d hd)
    obtain h0 | ⟨hp, -⟩ := T.dir d hd
    · exact h0
    · rw [hp] at hn
      cases hn
  have htbl : tblOf t = tblOf s := by
    funext d
    by_cases hd : d / 16 = nr
    · rw [U.gone d hd, hnone d hd]
    · exact U.outside.tbl d (by omega)
  have hmap : ∀ x, (mapOf t x).map Prod.fst = (mapOf s x).map Prod.fst := by
    intro x
    by_cases hx : x.1 / 16 = nr
    · rw [← Prod.eta x, mapOf_eq_none_of_tbl (U.gone _ hx), mapOf_eq_none_of_tbl (hnone _ hx)]
    · exact congrArg Prod.fst (U.outside.cells x (by omega))
  refine ⟨⟨counts_eq A A' htbl hmap T.counts, T.high, fun w => ?_⟩, hgone⟩
  by_cases hw : w / 16 = nr
  · right
    left
    rw [hgone w hw, hclear w hw]
  · obtain hf | heq | ⟨⟨d, -, hd⟩, hp, hlock⟩ := T.word w hw
    · exact Or.inl hf
    · exact Or.inr (Or.inl heq)
    · exact Or.inr (Or.inr ⟨⟨d, hd⟩, hp, hlock⟩)

/-- The entries that are not what they were belong to the parent, and name pages that
nobody else uses. -/
theorem lost_bits (A : Acc lo hi s held) (T : Trace lo hi a nr s t) (R : Alike lo hi s t)
    (hnr : nr < 64) (hnr' : 1 ≤ nr) (x : Nat × Nat) : mapOf t x = mapOf s x ∨ x.1 / 16 = a ∧
      ∃ f, mapOf s x = some (f, true) ∧ mapOf t x = some (f, false) ∧ t.memMap (f - 256) = 1 := by
  obtain heq | ⟨f, hm, hm'⟩ := R.map A x
  · exact Or.inl heq
  · right
    have hlow := A.low
    have hx := mem_cells_of_mapOf hm
    obtain ⟨hlo, -, hcnt⟩ := A.inv.writable x hx f hm
    rw [space_cnt (by omega)] at hcnt
    refine ⟨?_, f, hm, hm', by rw [R.memMap]; exact hcnt⟩
    -- the word of the entry is not what it was, so it is in a table of the parent
    obtain ⟨d, j⟩ := x
    have hj : j < 1024 := (mem_cells.mp hx).2
    cases hu : tblOf s d with
    | none =>
      rw [mapOf_eq_none_of_tbl hu] at hm
      cases hm
    | some u =>
      have hdiv := word_div (u := u) hj
      have hmain := A.tbl_main hu
      have hu' : tblOf t d = some u := (congrFun (R.tbl A) d).trans hu
      rw [mapOf_of_tbl hu hj] at hm
      rw [mapOf_of_tbl hu' hj] at hm'
      obtain hf | heq | ⟨⟨e, he, hue⟩, -⟩ := T.word (u * 1024 + j) (by omega)
      · rw [hdiv] at hf
        exact absurd hu ((A.free_unused hf.1 hf.2.1 hf.2.2).1 d)
      · rw [heq, hm] at hm'
        cases hm'
      · rw [hdiv] at hue
        rw [← A.tbl_inj hu e hue]
        exact he

/-- The words `l` at the beginning of a frame. -/
def Mem.overlay (s : Mem) (f : Nat) (l : List Word) : Mem :=
  { s with phys := fun w => if w / 1024 = f then l.getD (w % 1024) (s.phys w) else s.phys w }

theorem onlyFrame_overlay (f : Nat) (l : List Word) : OnlyFrame f s (s.overlay f l) :=
  fun _ hw => if_neg hw

/-- A page the kernel holds is written. -/
theorem acc_overlay (A : Acc lo hi s held) {f : Nat} (hf : 0 < held f) (l : List Word) :
    Acc lo hi (s.overlay f l) held ∧ tblOf (s.overlay f l) = tblOf s ∧
      ∀ x, shows (s.overlay f l) x = shows s x := by
  have hof := onlyFrame_overlay (s := s) f l
  obtain ⟨hlo, hhi, hnt⟩ := A.data_frame (Or.inl hf)
  obtain ⟨hacc, htbl, hmap⟩ := A.otherFrame hof hlo hnt rfl rfl
  refine ⟨hacc, htbl, fun x => shows_congr (congrFun hmap x) (views_eq_of_frame hof (congrFun hmap x) fun b hm => ?_)⟩
  have hnone := (A.inv.of_held hf).2.2.2.2.1
  have := Space.mapRefs_pos (a := space s held) (mem_cells_of_mapOf hm) hm
  omega

end Linux011.Mm
