import Linux011.Lib.Agree
import Linux011.Mm.Verify

/-!
# Memory manager — memories that no task can tell apart

Two memories are alike if they differ in the contents of free pages only, and in
entries of one of them that may not be written where those of the other may.

* `Alike.step` — both are written in the same way;
* `Alike.read` — what is read is the same;
* `userStore_agree` — so is what a store does: where an entry has lost its right to
  write, the store gets it back;
* `stores_agree` — and all stores that follow.
-/

namespace Linux011.Mm

open Linux011.Lib

/-- A frame of main memory that nobody uses. -/
def Free (lo hi : Nat) (s : Mem) (f : Nat) : Prop := lo ≤ f ∧ f < hi ∧ s.memMap (f - 256) = 0

/-- An entry in a page table, that may not be written any more. -/
def Locked (s s' : Mem) (a : Nat) : Prop :=
  (∃ d, tblOf s d = some (a / 1024)) ∧ present (s.phys a) = true ∧
    s'.phys a = s.phys a &&& ~~~2#32

structure Alike (lo hi : Nat) (s s' : Mem) : Prop where
  memMap : s'.memMap = s.memMap
  high   : s'.highMemory = s.highMemory
  word   : ∀ a, Free lo hi s (a / 1024) ∨ s'.phys a = s.phys a ∨ Locked s s' a

variable {lo hi : Nat} {s s' t t' : Mem} {held : Nat → Nat}

theorem Free.of_memMap {f : Nat} (h : Free lo hi s f) (hmem : t.memMap = s.memMap) :
    Free lo hi t f := by
  unfold Free
  rw [hmem]
  exact h

/-- The frame of a word of a page table. -/
theorem word_div {u j : Nat} (hj : j < 1024) : (u * 1024 + j) / 1024 = u := by omega

theorem Alike.refl (lo hi : Nat) (s : Mem) : Alike lo hi s s :=
  ⟨rfl, rfl, fun _ => Or.inr (Or.inl rfl)⟩

/-- Both are written: what a word is now is the same in both, or what it was. -/
theorem Alike.step (R : Alike lo hi s s') (hmem : t'.memMap = t.memMap)
    (hhigh : t.highMemory = s.highMemory ∧ t'.highMemory = s'.highMemory)
    (htbl : ∀ d u, tblOf s d = some u → tblOf t d = some u)
    (hfree : ∀ f, Free lo hi s f → Free lo hi t f ∨ ∀ a, a / 1024 = f → t'.phys a = t.phys a)
    (hword : ∀ a, t'.phys a = t.phys a ∨ t.phys a = s.phys a ∧ t'.phys a = s'.phys a) :
    Alike lo hi t t' := by
  refine ⟨hmem, by rw [hhigh.1, hhigh.2, R.high], fun a => ?_⟩
  obtain heq | ⟨ht, ht'⟩ := hword a
  · exact Or.inr (Or.inl heq)
  · obtain hf | heq | ⟨⟨d, hd⟩, hp, hlock⟩ := R.word a
    · obtain hf | heq := hfree _ hf
      · exact Or.inl hf
      · exact Or.inr (Or.inl (heq a rfl))
    · exact Or.inr (Or.inl (by rw [ht, ht', heq]))
    · refine Or.inr (Or.inr ⟨⟨d, htbl d _ hd⟩, ?_, ?_⟩)
      · rw [ht]
        exact hp
      · rw [ht, ht', hlock]

/-! ## What is the same -/

/-- A frame that is in use, and no page table. -/
theorem Alike.frame (R : Alike lo hi s s') {f : Nat} (hfree : ¬ Free lo hi s f)
    (htbl : ∀ d, tblOf s d ≠ some f) {a : Nat} (ha : a / 1024 = f) : s'.phys a = s.phys a := by
  obtain hf | heq | ⟨⟨d, hd⟩, -⟩ := R.word a
  · exact absurd (ha ▸ hf) hfree
  · exact heq
  · exact absurd (ha ▸ hd) (htbl d)

/-- The memory of the kernel, with the page directory. -/
theorem Alike.low (R : Alike lo hi s s') (A : Acc lo hi s held) {a : Nat} (ha : a / 1024 < lo) :
    s'.phys a = s.phys a := by
  refine R.frame (fun h => absurd h.1 (Nat.not_le_of_lt ha)) (fun d hd => ?_) rfl
  have := (A.tbl_main hd).1
  omega

theorem Alike.tbl (R : Alike lo hi s s') (A : Acc lo hi s held) : tblOf s' = tblOf s := by
  have hlow := A.low
  funext d
  unfold tblOf
  by_cases hd : 16 ≤ d ∧ d < 1024
  · rw [R.low A (by omega)]
  · rw [if_neg (fun h => hd h.1), if_neg (fun h => hd h.1)]

/-- An entry of a page table. -/
theorem Alike.entry (R : Alike lo hi s s') (A : Acc lo hi s held) {d j u : Nat}
    (hu : tblOf s d = some u) (hj : j < 1024) :
    s'.phys (u * 1024 + j) = s.phys (u * 1024 + j) ∨
      present (s.phys (u * 1024 + j)) = true ∧
        s'.phys (u * 1024 + j) = s.phys (u * 1024 + j) &&& ~~~2#32 := by
  have hdiv := word_div (u := u) hj
  obtain hf | heq | ⟨-, hp, hlock⟩ := R.word (u * 1024 + j)
  · rw [hdiv] at hf
    exact absurd hu ((A.free_unused hf.1 hf.2.1 hf.2.2).1 d)
  · exact Or.inl heq
  · exact Or.inr ⟨hp, hlock⟩

/-- What a cell maps. -/
theorem Alike.map (R : Alike lo hi s s') (A : Acc lo hi s held) (x : Nat × Nat) :
    mapOf s' x = mapOf s x ∨
      ∃ f, mapOf s x = some (f, true) ∧ mapOf s' x = some (f, false) := by
  obtain ⟨d, j⟩ := x
  by_cases hj : j < 1024
  · cases hu : tblOf s d with
    | none =>
      rw [mapOf_eq_none_of_tbl hu, mapOf_eq_none_of_tbl (by rw [R.tbl A]; exact hu)]
      exact Or.inl rfl
    | some u =>
      rw [mapOf_of_tbl hu hj, mapOf_of_tbl (by rw [R.tbl A]; exact hu) hj]
      obtain heq | ⟨hp, hlock⟩ := R.entry A hu hj
      · rw [heq]
        exact Or.inl rfl
      · generalize s.phys (u * 1024 + j) = w at hp hlock ⊢
        rw [hlock, entryOf, entryOf, present_and_not_two, if_pos hp, if_pos hp,
          frameOf_and_not_two, writable_and_not_two]
        cases writable w with
        | false => exact Or.inl rfl
        | true => exact Or.inr ⟨_, rfl, rfl⟩
  · unfold mapOf
    rw [if_neg hj, if_neg hj]
    exact Or.inl rfl

theorem Alike.frames (R : Alike lo hi s s') (A : Acc lo hi s held) (x : Nat × Nat) :
    (mapOf s' x).map Prod.fst = (mapOf s x).map Prod.fst := by
  obtain heq | ⟨f, hm, hm'⟩ := R.map A x
  · rw [heq]
  · rw [hm, hm']
    rfl

/-- The page a cell maps. -/
theorem Alike.page (R : Alike lo hi s s') (A : Acc lo hi s held) {x : Nat × Nat} {f : Nat} {b : Bool}
    (hm : mapOf s x = some (f, b)) {a : Nat} (ha : a / 1024 = f) : s'.phys a = s.phys a :=
  R.frame (fun h => (A.free_unused h.1 h.2.1 h.2.2).2.1 x b hm)
    (fun _ hd => A.tbl_not_mapped hd hm) ha

/-- **What a task reads** is the same. -/
theorem Alike.read (R : Alike lo hi s s') (A : Acc lo hi s held) (tasks : Nat → Option Ldt)
    {slot off : Nat} (hs1 : 1 ≤ slot) (hs2 : slot < 64) (ho : off < 0x4000000) :
    Machine.read ⟨s', tasks⟩ slot off = Machine.read ⟨s, tasks⟩ slot off := by
  rw [read_eq hs1 hs2 ho, read_eq hs1 hs2 ho]
  dsimp only
  have hpage : ∀ f b, mapOf s (cell slot (off / 4096)) = some (f, b) → contents s' f = contents s f := by
    intro f b hm
    funext k
    have := k.isLt
    exact R.page A hm (by omega)
  obtain heq | ⟨f, hm, hm'⟩ := R.map A (cell slot (off / 4096))
  · rw [heq]
    cases hm : mapOf s (cell slot (off / 4096)) with
    | none => rfl
    | some e =>
      obtain ⟨f, b⟩ := e
      rw [Option.map_some, Option.map_some, hpage f b hm]
  · rw [hm, hm', Option.map_some, Option.map_some, hpage f true hm]

/-! ## Pages that are handed out -/

/-- Only the words of one frame are written, the same in both. -/
theorem alike_store (R : Alike lo hi s s') {g j : Nat} {w : Word} (hj : j < 1024) (hg : g ≠ 0) :
    Alike lo hi { s with phys := Function.update s.phys (g * 1024 + j) w }
      { s' with phys := Function.update s'.phys (g * 1024 + j) w } := by
  refine R.step R.memMap ⟨rfl, rfl⟩ (fun d u hd => ?_) (fun f hf => Or.inl (hf.of_memMap rfl)) fun a => ?_
  · rw [tblOf_otherFrame (onlyFrame_store hj rfl) hg]
    exact hd
  · by_cases ha : a = g * 1024 + j
    · left
      subst ha
      dsimp only
      rw [Function.update_self, Function.update_self]
    · right
      exact ⟨Function.update_of_ne ha .., Function.update_of_ne ha ..⟩

/-- A directory entry that was not present is written. -/
theorem alike_storeDir (R : Alike lo hi s s') {d : Nat} {w : Word} (hd : d ∈ dirs)
    (hn : tblOf s d = none) :
    Alike lo hi { s with phys := Function.update s.phys d w }
      { s' with phys := Function.update s'.phys d w } := by
  refine R.step R.memMap ⟨rfl, rfl⟩ (fun e u he => ?_) (fun f hf => Or.inl (hf.of_memMap rfl))
    fun a => ?_
  · have hne : e ≠ d := by
      rintro rfl
      rw [hn] at he
      cases he
    rw [tblOf_storePde rfl hd, Function.update_of_ne hne]
    exact he
  · by_cases ha : a = d
    · left
      subst ha
      dsimp only
      rw [Function.update_self, Function.update_self]
    · right
      exact ⟨Function.update_of_ne ha .., Function.update_of_ne ha ..⟩

theorem taken_memMap (s : Mem) (f : Nat) :
    (taken s f).memMap = Function.update s.memMap (f - 256) 1 := rfl

theorem taken_word {f a : Nat} (s : Mem) (ha : a / 1024 = f) : (taken s f).phys a = 0#32 := if_pos ha

theorem alike_taken (R : Alike lo hi s s') (hlow : 256 ≤ lo) {f : Nat} (hf : 256 ≤ f) :
    Alike lo hi (taken s f) (taken s' f) := by
  refine R.step ?_ ⟨rfl, rfl⟩ (fun d u hd => ?_) (fun g hg => ?_) fun a => ?_
  · rw [taken_memMap, taken_memMap, R.memMap]
  · rw [tblOf_otherFrame (onlyFrame_taken f) (by omega)]
    exact hd
  · by_cases hgf : g = f
    · right
      intro a ha
      rw [taken_word s' (ha.trans hgf), taken_word s (ha.trans hgf)]
    · left
      have hne : g - 256 ≠ f - 256 := by
        have := hg.1
        omega
      refine ⟨hg.1, hg.2.1, ?_⟩
      rw [taken_memMap, Function.update_of_ne hne]
      exact hg.2.2
  · by_cases ha : a / 1024 = f
    · left
      rw [taken_word s' ha, taken_word s ha]
    · right
      exact ⟨onlyFrame_taken f a ha, onlyFrame_taken f a ha⟩

/-- `get_free_page` finds the same page in both, or none. -/
theorem getFreePage_agree (R : Alike lo hi s s') (A : Acc lo hi s held) :
    Agree (fun r t r' t' => r = r' ∧ (r = 0 ∧ t = s ∧ t' = s' ∨
      ∃ f, r = f * 4096 ∧ Free lo hi s f ∧ t = taken s f ∧ t' = taken s' f))
      getFreePage getFreePage s s' := by
  have hs := getFreePage_scan s
  have hs' := getFreePage_scan s'
  rw [R.memMap] at hs'
  cases hscan : scanFree s.memMap pagingPages with
  | none =>
    rw [hscan] at hs hs'
    exact (agree_of_ok hs hs').mpr ⟨rfl, Or.inl ⟨rfl, rfl, rfl⟩⟩
  | some i =>
    rw [hscan] at hs hs'
    obtain ⟨hlt, h0⟩ := scanFree_some hscan
    have h0 : s.memMap (i + 256 - 256) = 0 := by
      rw [Nat.add_sub_cancel]
      exact h0
    have hpp : pagingPages = 3840 := by decide
    have hmain : lo ≤ i + 256 ∧ i + 256 < hi := by
      by_contra hout
      exact A.other (i + 256) (by omega) (by omega) (by omega) h0
    exact (agree_of_ok hs hs').mpr
      ⟨rfl, Or.inr ⟨i + 256, rfl, ⟨hmain.1, hmain.2, h0⟩, rfl, rfl⟩⟩

/-- `put_page`. -/
theorem putPage_agree (R : Alike lo hi s s') (A : Acc lo hi s held) {page address : Nat}
    (hd : dirEntry address ∈ dirs) :
    Agree (fun r t r' t' => r = r' ∧ (r = 0 ∨ Alike lo hi t t')) (putPage page address)
      (putPage page address) s s' := by
  have hlow := A.low
  have hdir := mem_dirs.mp hd
  have hj := tableIndex_lt address
  unfold putPage
  show Agree _ (if present (s.phys (dirEntry address)) then _ else _)
    (if present (s'.phys (dirEntry address)) then _ else _) s s'
  rw [R.low A (by omega)]
  by_cases hp : present (s.phys (dirEntry address)) = true
  · have hu : tblOf s (dirEntry address) = some (frameOf (s.phys (dirEntry address))) :=
      tblOf_eq_some.mpr ⟨hd, hp, rfl⟩
    have htable := pageAddr_div (s.phys (dirEntry address))
    rw [if_pos hp, htable]
    exact ⟨rfl, Or.inr (alike_store R hj (A.tbl_ne_zero hu))⟩
  · rw [if_neg hp]
    refine agree_bind (getFreePage_agree R A) ?_
    intro r t r' t' ⟨heq, hr⟩
    subst heq
    obtain ⟨rfl, -, -⟩ | ⟨f, rfl, hf, rfl, rfl⟩ := hr
    · exact ⟨rfl, Or.inl rfl⟩
    · have hlo := hf.1
      rw [if_neg (by omega)]
      have hdiv : f * 4096 / 4 = f * 1024 := by omega
      rw [hdiv]
      refine ⟨rfl, Or.inr ?_⟩
      refine alike_store (alike_storeDir (alike_taken R hlow (by omega)) hd ?_) hj (by omega)
      rw [tblOf_otherFrame (onlyFrame_taken f) (by omega)]
      exact (tblOf_eq_none hd).mpr (by simpa using hp)

theorem stops_oom (cur : Ldt) : Stops (oom cur) := stops_bind _ fun _ => stops_throw _

/-- `get_empty_page`. -/
theorem getEmptyPage_agree (R : Alike lo hi s s') (A : Acc lo hi s held) (cur : Ldt) {address : Nat}
    (hd : dirEntry address ∈ dirs) :
    Agree (fun _ t _ t' => Alike lo hi t t') (getEmptyPage cur address) (getEmptyPage cur address)
      s s' := by
  have hlow := A.low
  have hstop : ∀ tmp, Stops (do freePage tmp; oom cur) := fun tmp =>
    stops_bind _ fun _ => stops_oom cur
  unfold getEmptyPage
  refine agree_bind (getFreePage_agree R A) ?_
  intro r t r' t' ⟨heq, hr⟩
  subst heq
  obtain ⟨rfl, -, -⟩ | ⟨f, rfl, hf, rfl, rfl⟩ := hr
  · rw [if_pos rfl]
    exact agree_stops (hstop 0) (hstop 0)
  · have hlo := hf.1
    obtain ⟨A', -⟩ := acc_taken A hf.1 hf.2.1 hf.2.2
    rw [if_neg (by omega)]
    refine agree_bind (putPage_agree (alike_taken R hlow (by omega)) A' hd) ?_
    intro r t r' t' ⟨heq, hr⟩
    subst heq
    by_cases hr0 : r = 0
    · rw [if_pos hr0]
      exact agree_stops (hstop _) (hstop _)
    · rw [if_neg hr0]
      exact hr.resolve_left hr0

/-! ## Write protection -/

theorem and_not_two {w : Word} (hw : writable w = false) : w &&& ~~~2#32 = w := by
  apply BitVec.eq_of_getLsbD_eq
  intro i hi
  rw [writable_eq] at hw
  rw [show (2#32 : Word) = BitVec.twoPow 32 1 from rfl, BitVec.getLsbD_and, BitVec.getLsbD_not,
    BitVec.getLsbD_twoPow]
  by_cases h1 : i = 1
  · rw [h1, hw]
    rfl
  · simp [hi, Ne.symm h1]

/-- An entry that could not be written before is the same. -/
theorem Alike.locked (R : Alike lo hi s s') (A : Acc lo hi s held) {d j u g : Nat}
    (hu : tblOf s d = some u) (hj : j < 1024) (hm : mapOf s (d, j) = some (g, false)) :
    s'.phys (u * 1024 + j) = s.phys (u * 1024 + j) := by
  obtain heq | ⟨hp, hlock⟩ := R.entry A hu hj
  · exact heq
  · rw [mapOf_of_tbl hu hj, entryOf, if_pos hp] at hm
    have hw := congrArg Prod.snd (Option.some.inj hm)
    dsimp only at hw
    rw [hlock, and_not_two hw]

/-- And one that could gets back the bit that it has lost. -/
theorem unlock_word {w : Word} (hw : writable w = true) : w &&& ~~~2#32 ||| 2#32 = w := by
  apply BitVec.eq_of_getLsbD_eq
  intro i hi
  rw [writable_eq] at hw
  rw [show (2#32 : Word) = BitVec.twoPow 32 1 from rfl, BitVec.getLsbD_or, BitVec.getLsbD_and,
    BitVec.getLsbD_not, BitVec.getLsbD_twoPow]
  by_cases h1 : i = 1
  · simp [h1, hw]
  · simp [hi, Ne.symm h1]

/-- A page is copied into one that has been taken. -/
theorem alike_copy (R : Alike lo hi s s') {f g : Nat} (hf : f ≠ 0)
    (hpage : ∀ a, a / 1024 = g → s'.phys a = s.phys a) :
    Alike lo hi
      { s with phys := fun a => if a / 1024 = f then s.phys (g * 1024 + a % 1024) else s.phys a }
      { s' with phys := fun a => if a / 1024 = f then s'.phys (g * 1024 + a % 1024) else s'.phys a } := by
  refine R.step R.memMap ⟨rfl, rfl⟩ (fun d u hd => ?_) (fun h hh => Or.inl (hh.of_memMap rfl))
    fun a => ?_
  · have hof : OnlyFrame f s
        { s with phys := fun a => if a / 1024 = f then s.phys (g * 1024 + a % 1024) else s.phys a } :=
      fun a ha => if_neg ha
    rw [tblOf_otherFrame hof hf]
    exact hd
  · by_cases ha : a / 1024 = f
    · left
      dsimp only
      rw [if_pos ha, if_pos ha]
      exact hpage _ (by omega)
    · right
      exact ⟨if_neg ha, if_neg ha⟩

/-- One use of a page is given up that is not free. -/
theorem alike_setMemMap (R : Alike lo hi s s') (hlow : 256 ≤ lo) {g n : Nat} (hg : 256 ≤ g)
    (hused : ¬ Free lo hi s g) :
    Alike lo hi { s with memMap := Function.update s.memMap (g - 256) n }
      { s' with memMap := Function.update s'.memMap (g - 256) n } := by
  refine R.step ?_ ⟨rfl, rfl⟩ (fun d u hd => hd) (fun h hh => Or.inl ?_) fun a => Or.inr ⟨rfl, rfl⟩
  · dsimp only
    rw [R.memMap]
  · have hne : h - 256 ≠ g - 256 := by
      intro heq
      have hlo := hh.1
      have hhg : h = g := by omega
      exact hused (hhg ▸ hh)
    refine ⟨hh.1, hh.2.1, ?_⟩
    dsimp only
    rw [Function.update_of_ne hne]
    exact hh.2.2

/-- `un_wp_page` on an entry that may not be written in either. -/
theorem unWpPage_agree (R : Alike lo hi s s') (A : Acc lo hi s held) (cur : Ldt) {d j u g : Nat}
    (hu : tblOf s d = some u) (hj : j < 1024) (hm : mapOf s (d, j) = some (g, false)) :
    Agree (fun _ t _ t' => Alike lo hi t t') (unWpPage cur (u * 1024 + j))
      (unWpPage cur (u * 1024 + j)) s s' := by
  have hlow := A.low
  have hquarter : g * 4096 / 4 = g * 1024 := Nat.mul_div_assoc g (by decide)
  have hdiv := word_div (u := u) hj
  have hg : frameOf (s.phys (u * 1024 + j)) = g := by
    have h := hm
    rw [mapOf_of_tbl hu hj, entryOf] at h
    split at h
    · exact congrArg Prod.fst (Option.some.inj h)
    · cases h
  have hu0 := A.tbl_ne_zero hu
  have hused : ¬ Free lo hi s g := fun h => (A.free_unused h.1 h.2.1 h.2.2).2.1 _ _ hm
  have haddr : ∀ f, f * 4096 ≥ lowMem ↔ 256 ≤ f := by
    intro f
    unfold lowMem
    omega
  have hnr : mapNr (g * 4096) = g - 256 := by
    unfold mapNr lowMem
    rw [Nat.shiftRight_eq_div_pow]
    omega
  unfold unWpPage
  show Agree _ (if pageAddr (s.phys (u * 1024 + j)) ≥ lowMem ∧
      s.memMap (mapNr (pageAddr (s.phys (u * 1024 + j)))) = 1 then _ else _)
    (if pageAddr (s'.phys (u * 1024 + j)) ≥ lowMem ∧
      s'.memMap (mapNr (pageAddr (s'.phys (u * 1024 + j)))) = 1 then _ else _) s s'
  rw [R.locked A hu hj hm, R.memMap, pageAddr_eq, hg, hnr]
  by_cases hfast : g * 4096 ≥ lowMem ∧ s.memMap (g - 256) = 1
  · rw [if_pos hfast]
    exact alike_store R hj hu0
  · rw [if_neg hfast]
    refine agree_bind (getFreePage_agree R A) ?_
    rintro r t r' t' ⟨heq, hr⟩
    subst heq
    obtain ⟨rfl, -, -⟩ | ⟨f, rfl, hf, rfl, rfl⟩ := hr
    · rw [if_pos rfl]
      exact agree_stops (stops_oom cur) (stops_oom cur)
    have hlo := hf.1
    have hgf : g ≠ f := by
      rintro rfl
      exact hused hf
    have htaken := alike_taken R hlow (show 256 ≤ f by omega)
    -- the page itself is the same, and stays so
    have hcopy : ∀ t t', Alike lo hi t t' → (∀ a, a / 1024 = g → t'.phys a = t.phys a) →
        Agree (fun _ t _ t' => Alike lo hi t t')
          (do store (u * 1024 + j) (entry7 (f * 4096)); copyPage (g * 4096) (f * 4096))
          (do store (u * 1024 + j) (entry7 (f * 4096)); copyPage (g * 4096) (f * 4096)) t t' := by
      intro t t' Rt hpage
      have hstored := alike_store Rt (w := entry7 (f * 4096)) hj hu0
      unfold copyPage
      rw [hquarter, Nat.mul_div_cancel f (by decide)]
      refine alike_copy hstored (by omega) fun a ha => ?_
      have hne : a ≠ u * 1024 + j := by
        rintro rfl
        rw [hdiv] at ha
        exact A.tbl_not_mapped hu (ha ▸ hm)
      dsimp only
      rw [Function.update_of_ne hne, Function.update_of_ne hne]
      exact hpage a ha
    have hpage : ∀ a, a / 1024 = g → (taken s' f).phys a = (taken s f).phys a := by
      intro a ha
      rw [onlyFrame_taken f a (by omega), onlyFrame_taken f a (by omega)]
      exact R.page A hm ha
    rw [if_neg (by omega)]
    by_cases hmain : g * 4096 ≥ lowMem
    · have hg256 := (haddr g).mp hmain
      have hused' : ¬ Free lo hi (taken s f) g := by
        intro h
        have h0 := h.2.2
        rw [taken_memMap, Function.update_of_ne (by omega)] at h0
        exact hused ⟨h.1, h.2.1, h0⟩
      rw [if_pos hmain, agree_get_bind, htaken.memMap]
      exact hcopy _ _ (alike_setMemMap htaken hlow hg256 hused') hpage
    · rw [if_neg hmain]
      exact hcopy _ _ htaken hpage

/-- `do_wp_page`. -/
theorem doWpPage_agree (R : Alike lo hi s s') (A : Acc lo hi s held) (cur : Ldt) {address g : Nat}
    (hd : dirEntry address ∈ dirs) (hm : mapOf s (cellOf address) = some (g, false)) :
    Agree (fun _ t _ t' => Alike lo hi t t') (doWpPage cur address) (doWpPage cur address) s s' := by
  have hlow := A.low
  have hdir := mem_dirs.mp hd
  obtain ⟨u, hu, htable⟩ := entry_of_mapOf hm
  unfold doWpPage
  show Agree _ (unWpPage cur (tableIndex address + pageAddr (s.phys (dirEntry address)) / 4))
    (unWpPage cur (tableIndex address + pageAddr (s'.phys (dirEntry address)) / 4)) s s'
  rw [R.low A (by omega), htable, Nat.add_comm]
  exact unWpPage_agree R A cur hu (tableIndex_lt address) hm

/-- The one of the two in which the entry has lost its bit gets it back. -/
theorem doWpPage_unlocks (R : Alike lo hi s s') (A : Acc lo hi s held) (cur : Ldt) {address g : Nat}
    (hd : dirEntry address ∈ dirs) (hm : mapOf s (cellOf address) = some (g, true))
    (hm' : mapOf s' (cellOf address) = some (g, false)) :
    ∃ t', doWpPage cur address s' = .ok () t' ∧ Alike lo hi s t' := by
  have hlow := A.low
  have hdir := mem_dirs.mp hd
  have hj := tableIndex_lt address
  obtain ⟨u, hu, htable⟩ := entry_of_mapOf hm
  obtain ⟨hlo, -, hone⟩ := A.inv.writable _ (mem_cells_of_mapOf hm) g hm
  rw [space_cnt (by omega)] at hone
  have hentry := mapOf_of_tbl hu hj
  have hentry' := mapOf_of_tbl ((congrFun (R.tbl A) _).trans hu) hj
  unfold cellOf at hm hm'
  rw [hm] at hentry
  rw [hm'] at hentry'
  -- the word had the bit, and has only lost it
  have hw : writable (s.phys (u * 1024 + tableIndex address)) = true := by
    unfold entryOf at hentry
    split at hentry
    · exact (congrArg Prod.snd (Option.some.inj hentry)).symm
    · cases hentry
  have hlock : s'.phys (u * 1024 + tableIndex address) =
      s.phys (u * 1024 + tableIndex address) &&& ~~~2#32 := by
    obtain heq | ⟨-, hlock⟩ := R.entry A hu hj
    · rw [heq] at hentry'
      rw [← hentry'] at hentry
      cases hentry
    · exact hlock
  have hg : frameOf (s'.phys (u * 1024 + tableIndex address)) = g := by
    unfold entryOf at hentry'
    split at hentry'
    · exact (congrArg Prod.fst (Option.some.inj hentry')).symm
    · cases hentry'
  have hnr : mapNr (g * 4096) = g - 256 := by
    unfold mapNr lowMem
    rw [Nat.shiftRight_eq_div_pow]
    omega
  have hfast : g * 4096 ≥ lowMem ∧ s'.memMap (mapNr (g * 4096)) = 1 := by
    rw [hnr, R.memMap]
    refine ⟨?_, hone⟩
    unfold lowMem
    omega
  refine ⟨{ s' with
    phys := Function.update s'.phys (u * 1024 + tableIndex address)
      (s'.phys (u * 1024 + tableIndex address) ||| 2#32) }, ?_, R.memMap, R.high, fun a => ?_⟩
  · show unWpPage cur (tableIndex address + pageAddr (s'.phys (dirEntry address)) / 4) s' = _
    rw [R.low A (by omega), htable, Nat.add_comm]
    show (if pageAddr (s'.phys (u * 1024 + tableIndex address)) ≥ lowMem ∧
      s'.memMap (mapNr (pageAddr (s'.phys (u * 1024 + tableIndex address)))) = 1 then _ else _ :
        MM Unit) s' = _
    rw [pageAddr_eq, hg, if_pos hfast]
    rfl
  · dsimp only
    by_cases ha : a = u * 1024 + tableIndex address
    · right
      left
      rw [ha, Function.update_self, hlock, unlock_word hw]
    · unfold Locked
      dsimp only
      rw [Function.update_of_ne ha]
      exact R.word a

/-! ## Stores -/

@[simp] theorem agree_load_bind {α β : Type} {a : Nat} {Q : α → Mem → β → Mem → Prop}
    {f : Word → MM α} {g : Word → MM β} :
    Agree Q (load a >>= f) (load a >>= g) s s' ↔ Agree Q (f (s.phys a)) (g (s'.phys a)) s s' :=
  Iff.rfl

/-- A byte is stored into a page that is mapped. -/
theorem storeByte_agree (R : Alike lo hi s s') (A : Acc lo hi s held) {x : Nat × Nat} {f o : Nat}
    (hm : mapOf s x = some (f, true)) (ho : o < 4096) (b : Byte) :
    Agree (fun _ t _ t' => Alike lo hi t t') (storeByte (f * 4096 + o) b)
      (storeByte (f * 4096 + o) b) s s' := by
  have hlow := A.low
  obtain ⟨hlo, -, -⟩ := A.inv.writable x (mem_cells_of_mapOf hm) f hm
  have hj : o / 4 < 1024 := by omega
  have haddr : (f * 4096 + o) / 4 = f * 1024 + o / 4 := by omega
  have hword : s'.phys (f * 1024 + o / 4) = s.phys (f * 1024 + o / 4) :=
    R.page A hm (word_div hj)
  unfold storeByte
  rw [haddr, agree_load_bind, hword]
  exact alike_store R hj (by omega)

theorem translate_empty {address : Nat} (hd : dirEntry address ∈ dirs)
    (hm : mapOf s (cellOf address) = none) :
    translate s address true = .error .notPresent := by
  unfold cellOf at hm
  rw [translate_eq hd, hm]

theorem translate_locked {address g : Nat} (hd : dirEntry address ∈ dirs)
    (hm : mapOf s (cellOf address) = some (g, false)) :
    translate s address true = .error .writeProtect := by
  unfold cellOf at hm
  rw [translate_eq hd, hm]
  rfl

theorem translate_writable {address g : Nat} (hd : dirEntry address ∈ dirs)
    (hm : mapOf s (cellOf address) = some (g, true)) :
    translate s address true = .ok (g * 4096 + address % 4096) := by
  unfold cellOf at hm
  rw [translate_eq hd, hm]
  rfl

/-- A store to an entry that may be written. -/
def storeAt (address : Nat) (b : Byte) : MM Bool := do
  match translate (← get) address true with
  | .ok a =>
    storeByte a b
    return true
  | .error _ => return false

theorem storeAt_agree (R : Alike lo hi t t') (A : Acc lo hi t held) {address f f' : Nat}
    (hd : dirEntry address ∈ dirs) (hm : mapOf t (cellOf address) = some (f, true))
    (hm' : mapOf t' (cellOf address) = some (f', true)) (b : Byte) :
    Agree (fun _ t _ t' => Alike lo hi t t') (storeAt address b) (storeAt address b) t t' := by
  have hframe := R.frames A (cellOf address)
  rw [hm, hm'] at hframe
  obtain rfl : f' = f := Option.some.inj hframe
  unfold storeAt
  rw [agree_get_bind, translate_writable hd hm, translate_writable hd hm']
  exact agree_bind (storeByte_agree R A hm (Nat.mod_lt _ (by decide)) b) fun _ _ _ _ h => h

/-- A fault, and the second attempt. -/
theorem userStore_fault {cur : Ldt} {address : Nat} {f : Fault} (b : Byte)
    (h : translate s address true = .error f) :
    userStore cur address b s = (pageFault cur address f >>= fun _ => storeAt address b) s := by
  unfold userStore
  show (match translate s address true with
    | .ok a => (storeByte a b >>= fun _ => pure true : MM Bool)
    | .error f => pageFault cur address f >>= fun _ => storeAt address b) s = _
  rw [h]

theorem userStore_ok {cur : Ldt} {address a : Nat} (b : Byte) (h : translate s address true = .ok a) :
    userStore cur address b s = (storeByte a b >>= fun _ => pure true : MM Bool) s := by
  unfold userStore
  show (match translate s address true with
    | .ok a => (storeByte a b >>= fun _ => pure true : MM Bool)
    | .error f => pageFault cur address f >>= fun _ => storeAt address b) s = _
  rw [h]

/-- **A store** does the same to both, or the task is killed in both. -/
theorem userStore_agree (R : Alike lo hi s s') (A : Acc lo hi s held) (A' : Acc lo hi s' held)
    {cur : Ldt} {slot off : Nat} (hcur : cur.InSlot slot) (hslot : 1 ≤ slot)
    (ho : off < cur.dataLimit) (b : Byte) :
    Agree (fun _ t _ t' => Alike lo hi t t' ∧ Acc lo hi t held ∧ Acc lo hi t' held)
      (userStore cur (cur.dataBase + off) b) (userStore cur (cur.dataBase + off) b) s s' := by
  have hspec := userStore_spec A hcur hslot ho b
  have hspec' := userStore_spec A' hcur hslot ho b
  refine agree_mono (agree_wp (R := fun _ t _ t' => Alike lo hi t t') ?_ hspec hspec')
    fun _ t _ t' ⟨hR, ⟨_, hA, _⟩, _, hA', _⟩ => ⟨hR, hA, hA'⟩
  have hoff : off < 0x4000000 := Nat.lt_of_lt_of_le ho hcur.top
  have hcell := cellOf_byte hcur.slot_lt hoff
  have hlt : slot * 0x4000000 + off < 0x100000000 := by
    have := hcur.slot_lt
    omega
  have hd : dirEntry (slot * 0x4000000 + off) ∈ dirs := by
    rw [show dirEntry (slot * 0x4000000 + off) = (cell slot (off / 4096)).1 from
      congrArg Prod.fst hcell]
    have := hcur.slot_lt
    exact mem_dirs.mpr (by unfold cell; dsimp only; omega)
  rw [hcur.data]
  obtain ⟨hpd, hpt⟩ := page_of_address hlt
  generalize slot * 0x4000000 + off = address at hd hpd hpt hlt
  have hd' : dirEntry (address &&& 0xfffff000) ∈ dirs := by rw [hpd]; exact hd
  obtain heq | ⟨g, hm, hm'⟩ := R.map A (cellOf address)
  · cases hm : mapOf s (cellOf address) with
    | none =>
      have hm' := heq.trans hm
      refine agree_congr (userStore_fault b (translate_empty hd hm))
        (userStore_fault b (translate_empty hd hm')) ?_
      unfold cellOf at hm hm'
      have hget := getEmptyPage_spec A hcur hslot hd' (by rw [hpd, hpt]; exact hm)
      have hget' := getEmptyPage_spec A' hcur hslot hd' (by rw [hpd, hpt]; exact hm')
      rw [hpd, hpt] at hget hget'
      refine agree_bind (agree_wp (getEmptyPage_agree R A cur hd') hget hget') ?_
      intro _ t _ t' ⟨Rt, ⟨At, _, ⟨f, _, hmf⟩, _⟩, _, _, ⟨f', _, hmf'⟩, _⟩
      exact storeAt_agree Rt At hd hmf hmf' b
    | some e =>
      obtain ⟨g, w⟩ := e
      have hm' := heq.trans hm
      cases w with
      | true =>
        refine agree_congr (userStore_ok b (translate_writable hd hm))
          (userStore_ok b (translate_writable hd hm')) ?_
        exact agree_bind (storeByte_agree R A hm (Nat.mod_lt _ (by decide)) b) fun _ _ _ _ h => h
      | false =>
        refine agree_congr (userStore_fault b (translate_locked hd hm))
          (userStore_fault b (translate_locked hd hm')) ?_
        have hwp := doWpPage_spec A hcur hslot hm
        have hwp' := doWpPage_spec A' hcur hslot hm'
        refine agree_bind (agree_wp (doWpPage_agree R A cur hd hm) hwp hwp') ?_
        intro _ t _ t' ⟨Rt, ⟨At, hun⟩, _, hun'⟩
        obtain ⟨f, -, hmf⟩ := hun.entry
        obtain ⟨f', -, hmf'⟩ := hun'.entry
        exact storeAt_agree Rt At hd hmf hmf' b
  · -- one of the two faults
    obtain ⟨t', ht', Rt⟩ := doWpPage_unlocks R A cur hd hm hm'
    obtain ⟨-, hun'⟩ := wp_ok (doWpPage_spec A' hcur hslot hm') ht'
    obtain ⟨f', -, hmf'⟩ := hun'.entry
    have hgo : userStore cur address b s = storeAt address b s := by
      rw [userStore_ok b (translate_writable hd hm)]
      unfold storeAt
      show _ = (match translate s address true with
        | .ok a => (storeByte a b >>= fun _ => pure true : MM Bool)
        | .error _ => pure false) s
      rw [translate_writable hd hm]
    refine agree_congr hgo (userStore_fault b (translate_locked hd hm')) ?_
    exact agree_bind_right ht' (storeAt_agree Rt A hd hm hmf' b)

/-- Stores of some tasks, one after another. A store stays within the segment. -/
def stores (tasks : Nat → Option Ldt) : List (Nat × Nat × Byte) → MM Unit
  | [] => return ()
  | (slot, off, b) :: rest => do
    match tasks slot with
    | some cur =>
      if off < cur.dataLimit then
        let _ ← userStore cur (cur.dataBase + off) b
        stores tasks rest
      else stores tasks rest
    | none => stores tasks rest

/-- **All stores** do the same to both. -/
theorem stores_agree {tasks : Nat → Option Ldt}
    (htasks : ∀ slot cur, tasks slot = some cur → 1 ≤ slot ∧ cur.InSlot slot)
    (l : List (Nat × Nat × Byte)) (R : Alike lo hi s s') (A : Acc lo hi s held)
    (A' : Acc lo hi s' held) :
    Agree (fun _ t _ t' => Alike lo hi t t' ∧ Acc lo hi t held) (stores tasks l) (stores tasks l)
      s s' := by
  induction l generalizing s s' with
  | nil => exact ⟨R, A⟩
  | cons store rest ih =>
    obtain ⟨slot, off, b⟩ := store
    unfold stores
    cases htask : tasks slot with
    | none => exact ih R A A'
    | some cur =>
      obtain ⟨hslot, hcur⟩ := htasks slot cur htask
      dsimp only
      by_cases ho : off < cur.dataLimit
      · rw [if_pos ho]
        refine agree_bind (userStore_agree R A A' hcur hslot ho b) ?_
        intro _ t _ t' ⟨Rt, At, At'⟩
        exact ih Rt At At'
      · rw [if_neg ho]
        exact ih R A A'

end Linux011.Mm
