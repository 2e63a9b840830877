import Linux011.Mm.Verify

/-!
# Memory manager — `verify_area` on any buffer

Here the address and the size are any that a call can be given: the area may
reach over the end of the segment, over pages that are not there, and around the
end of the linear addresses.

* `verifyPages_calls` — the calls of the loop, whatever routine it calls;
* `writeVerify_kept` — `write_verify` at any address;
* `verify_area_covers` — `verify_area` covers the buffer exactly if its size and
  the offset of its address add up to less than 2 ^ 31; and it calls
  `write_verify` for the page of an empty buffer, unless a page begins there.
-/

namespace Linux011.Mm

open Linux011.Lib

/-! ## What is asked -/

/-- A page that may be written, and that nothing else maps. -/
def Owned (s : Mem) (x : Nat × Nat) : Prop :=
  ∃ f, mapOf s x = some (f, true) ∧ 256 ≤ f ∧ s.memMap (f - 256) = 1

/-- One call for each page of the area, in this order and at these addresses. -/
def CallsOnce (cur : Ldt) (addr size : Nat) : Prop :=
  ∃ pages : List Nat, pages.Nodup ∧ (∀ p, p ∈ pages ↔ ∃ k < size, (addr + k) / 4096 = p) ∧
    ∀ verify : Nat → MM Unit, verifyAreaBy verify cur addr size =
      pages.forM fun p => verify ((cur.dataBase + p * 4096) % 2 ^ 32)

/-- **The buffer is covered**: one call for each page, and after them the pages of
the segment that the area meets and that are there are the caller's own. What the
caller reads is as before. For want of a page the task may be killed. -/
def Machine.Covered (m : Machine) (slot : Nat) (cur : Ldt) (addr size : Nat) : Prop :=
  CallsOnce cur addr size ∧
  wp (verifyArea cur addr size) (fun _ s =>
    (∀ k < size, (addr + k) / 4096 * 4096 < cur.dataLimit →
      mapOf s (cell slot ((addr + k) / 4096)) ≠ none → Owned s (cell slot ((addr + k) / 4096))) ∧
    ∀ off < cur.dataLimit, Machine.read ⟨s, m.tasks⟩ slot off = m.read slot off)
    (fun e _ => e = .exit) m.mem

/-- The kernel's own page tables lie below main memory, and allow writing. -/
def KernelOpen (lo : Nat) (s : Mem) : Prop :=
  ∀ d < 16, present (s.phys d) = true → frameOf (s.phys d) < lo ∧
    ∀ j < 1024, s.phys (frameOf (s.phys d) * 1024 + j) &&& 3#32 ≠ 1#32

variable {lo hi : Nat} {s s' : Mem} {held : Nat → Nat} {m : Machine} {slot : Nat} {cur : Ldt}
  {addr size : Nat}

/-! ## The calls -/

/-- The loop calls for `n` pages, if `n` pages are left. -/
theorem verifyPages_calls (verify : Nat → MM Unit) (base : Nat) {n p : Nat} {left : Int}
    (hlow : (n : Int) * 4096 < left + 4096) (hhigh : left ≤ n * 4096) :
    verifyPages verify ((base + p * 4096) % 2 ^ 32) left =
      (List.range' p n).forM fun q => verify ((base + q * 4096) % 2 ^ 32) := by
  induction n generalizing p left with
  | zero =>
    unfold verifyPages
    rw [if_neg (by omega)]
    rfl
  | succ n ih =>
    have hnext : ((base + p * 4096) % 2 ^ 32 + 4096) % 2 ^ 32 =
        (base + (p + 1) * 4096) % 2 ^ 32 := by
      omega
    unfold verifyPages
    rw [if_pos (by omega), hnext, ih (by omega) (by omega)]
    rfl

/-- The pages that the area meets. -/
theorem mem_areaPages (addr : Nat) {size : Nat} (hsize : 0 < size) (p : Nat) :
    p ∈ List.range' (addr / 4096) ((size + addr % 4096 + 4095) / 4096) ↔
      ∃ k < size, (addr + k) / 4096 = p := by
  rw [List.mem_range'_1]
  constructor
  · intro ⟨h1, h2⟩
    -- the first byte of the area on this page
    exact ⟨max (p * 4096) addr - addr, by omega, by omega⟩
  · intro ⟨k, hk, hp⟩
    omega

/-- The arguments of the loop. -/
theorem verifyAreaBy_eq (verify : Nat → MM Unit) (cur : Ldt) (haddr : addr < 2 ^ 32) :
    verifyAreaBy verify cur addr size =
      verifyPages verify ((cur.dataBase + addr / 4096 * 4096) % 2 ^ 32)
        (((size + addr % 4096 : Nat) : Int).bmod (2 ^ 32)) := by
  unfold verifyAreaBy
  rw [and_fffff000 haddr, and_fff, Nat.add_comm cur.dataBase]
  rfl

/-- The sum fits into an `int`. -/
theorem verifyAreaBy_fits (verify : Nat → MM Unit) (cur : Ldt) (haddr : addr < 2 ^ 32)
    (hfit : size + addr % 4096 < 2 ^ 31) :
    verifyAreaBy verify cur addr size =
      (List.range' (addr / 4096) ((size + addr % 4096 + 4095) / 4096)).forM fun p =>
        verify ((cur.dataBase + p * 4096) % 2 ^ 32) := by
  have hint : ((size + addr % 4096 : Nat) : Int).bmod (2 ^ 32) = (size + addr % 4096 : Nat) :=
    Int.bmod_eq_of_le (by omega) (by omega)
  rw [verifyAreaBy_eq verify cur haddr, hint]
  exact verifyPages_calls verify cur.dataBase (by omega) (by omega)

/-- The sum does not fit, and is negative then: nothing is verified. -/
theorem verifyAreaBy_overflow (verify : Nat → MM Unit) (cur : Ldt) (haddr : addr < 2 ^ 32)
    (hsize : size < 2 ^ 31) (hover : 2 ^ 31 ≤ size + addr % 4096) :
    verifyAreaBy verify cur addr size = pure () := by
  have hint : ((size + addr % 4096 : Nat) : Int).bmod (2 ^ 32) =
      (size + addr % 4096 : Nat) - 2 ^ 32 := by
    rw [Int.bmod_def]
    omega
  rw [verifyAreaBy_eq verify cur haddr, hint]
  unfold verifyPages
  rw [if_neg (by omega)]

/-- There is a call exactly if there is a page. -/
theorem callsOnce_iff (cur : Ldt) (haddr : addr < 2 ^ 32) (hsize : size < 2 ^ 31) :
    CallsOnce cur addr size ↔
      size + addr % 4096 < 2 ^ 31 ∧ (size = 0 → addr % 4096 = 0) := by
  constructor
  · intro ⟨pages, _, hmem, hcalls⟩
    -- a routine that is called at all does not return
    have hcalls := congrFun (hcalls fun _ => throw .exit) ⟨fun _ => 0, fun _ => 0, 0⟩
    have hempty : pages = [] ↔ size = 0 := by
      rw [List.eq_nil_iff_forall_not_mem]
      constructor
      · intro h
        by_contra hne
        exact h _ ((hmem _).mpr ⟨0, by omega, rfl⟩)
      · intro h p hp
        obtain ⟨k, hk, -⟩ := (hmem p).mp hp
        omega
    by_cases hfit : size + addr % 4096 < 2 ^ 31
    · refine ⟨hfit, fun hzero => ?_⟩
      rw [hempty.mpr hzero, verifyAreaBy_fits _ cur haddr hfit] at hcalls
      by_contra hne
      have hone : (size + addr % 4096 + 4095) / 4096 = 1 := by omega
      rw [hone] at hcalls
      cases hcalls
    · rw [verifyAreaBy_overflow _ cur haddr hsize (by omega)] at hcalls
      cases pages with
      | nil =>
        have hzero := hempty.mp rfl
        omega
      | cons p ps => cases hcalls
  · intro ⟨hfit, hzero⟩
    by_cases hpos : 0 < size
    · exact ⟨_, List.nodup_range', mem_areaPages addr hpos,
        fun verify => verifyAreaBy_fits verify cur haddr hfit⟩
    · have hsize0 : size = 0 := by omega
      refine ⟨[], List.nodup_nil, fun p => ?_, fun verify => ?_⟩
      · simp [hsize0]
      · rw [verifyAreaBy_fits verify cur haddr hfit, hsize0, hzero hsize0]
        rfl

/-! ## write_verify -/

/-- The page behind a cell. -/
def seen (s : Mem) (x : Nat × Nat) : Option (Fin 1024 → Word) :=
  (mapOf s x).map fun e => contents s e.1

/-- If there is a page, it may be written. -/
def Unlocked (s : Mem) (x : Nat × Nat) : Prop := ∀ e, mapOf s x = some e → e.2 = true

/-- What `write_verify` keeps: everything below main memory, all pages as they are
seen, and the entries that allow writing. -/
structure Kept (lo : Nat) (s s' : Mem) : Prop where
  low      : ∀ a, a / 1024 < lo → s'.phys a = s.phys a
  seen     : ∀ x, seen s' x = seen s x
  unlocked : ∀ x, Unlocked s x → Unlocked s' x

theorem Kept.refl (lo : Nat) (s : Mem) : Kept lo s s :=
  ⟨fun _ _ => rfl, fun _ => rfl, fun _ h => h⟩

theorem Kept.trans {s₁ : Mem} (h : Kept lo s s₁) (h' : Kept lo s₁ s') : Kept lo s s' :=
  ⟨fun a ha => (h'.low a ha).trans (h.low a ha), fun x => (h'.seen x).trans (h.seen x),
    fun x hx => h'.unlocked x (h.unlocked x hx)⟩

theorem KernelOpen.kept (K : KernelOpen lo s) (hlow : 256 ≤ lo) (h : Kept lo s s') :
    KernelOpen lo s' := by
  intro d hd
  rw [h.low d (by omega)]
  intro hp
  obtain ⟨hframe, hopen⟩ := K d hd hp
  refine ⟨hframe, fun j hj => ?_⟩
  rw [h.low _ (by omega)]
  exact hopen j hj

/-- What a task reads. -/
theorem Kept.read (h : Kept lo m.mem s') (hs1 : 1 ≤ slot) (hs2 : slot < 64) {off : Nat}
    (ho : off < 0x4000000) : Machine.read ⟨s', m.tasks⟩ slot off = m.read slot off := by
  have hpage := congrArg (Option.map fun c => bytesOf c (Fin.ofNat 4096 off))
    (h.seen (cell slot (off / 4096)))
  unfold Linux011.Mm.seen at hpage
  rw [Option.map_map, Option.map_map] at hpage
  rw [read_eq hs1 hs2 ho, read_eq hs1 hs2 ho]
  exact hpage

/-- An entry other than the one that is written. -/
theorem mapOf_kept (A : Acc lo hi s held) {d j t : Nat} (ht : tblOf s d = some t) (hj : j < 1024)
    (htbl : tblOf s' = tblOf s)
    (hkept : ∀ a, a ≠ t * 1024 + j →
      (lo ≤ a / 1024 → a / 1024 < hi → s.memMap (a / 1024 - 256) ≠ 0) → s'.phys a = s.phys a)
    {y : Nat × Nat} (hy : y ≠ (d, j)) : mapOf s' y = mapOf s y := by
  obtain ⟨d', j'⟩ := y
  by_cases hj' : j' < 1024
  · cases ht' : tblOf s d' with
    | none => rw [mapOf_eq_none_of_tbl ht', mapOf_eq_none_of_tbl (by rw [htbl]; exact ht')]
    | some t' =>
      rw [mapOf_of_tbl ht' hj', mapOf_of_tbl (by rw [htbl]; exact ht') hj', hkept]
      · intro heq
        have htt : t' = t := by omega
        subst htt
        exact hy (Prod.ext (A.tbl_inj ht d' ht') (by dsimp only; omega))
      · intro h1 h2 h0
        have hdiv : (t' * 1024 + j') / 1024 = t' := by omega
        rw [hdiv] at h1 h2 h0
        exact (A.free_unused h1 h2 h0).1 d' ht'
  · unfold mapOf
    rw [if_neg hj', if_neg hj']

/-- `un_wp_page` keeps what `write_verify` does, and unlocks its entry. -/
theorem unWpPage_unlocks (A : Acc lo hi s held) {d j t g : Nat} {b : Bool}
    (hcur : cur.InSlot slot) (hslot : 1 ≤ slot) (ht : tblOf s d = some t) (hj : j < 1024)
    (hm : mapOf s (d, j) = some (g, b)) :
    wp (unWpPage cur (t * 1024 + j)) (fun _ s' =>
      Acc lo hi s' held ∧ Kept lo s s' ∧ Unlocked s' (d, j)) (fun e _ => e = .exit) s := by
  have hlow := A.low
  obtain ⟨htlo, -⟩ := A.tbl_main ht
  have hun := unWpPage_spec A hcur hslot ht hj hm
  have hkeep := unWpPage_kept (j := j) A hcur hslot ht
  refine wp_mono (wp_and hun hkeep) ?_ fun _ _ h => h.2
  intro _ s' ⟨⟨A', hu⟩, hkept⟩
  obtain ⟨f, hf, hmf⟩ := hu.entry
  have hunlocked : Unlocked s' (d, j) := by
    intro e he
    rw [hmf] at he
    rw [← Option.some.inj he]
  have hbelow : ∀ a, a / 1024 < lo → s'.phys a = s.phys a := fun a ha =>
    hkept a (by omega) fun h => absurd h (by omega)
  refine ⟨A', ⟨hbelow, fun y => ?_, fun y hy => ?_⟩, hunlocked⟩
  · unfold seen
    by_cases hyx : y = (d, j)
    · have hview := hu.view
      unfold views pageView at hview
      rw [hmf] at hview
      have hcopy : contents s' f = contents s g := by
        simpa [show f ≠ 0 by omega] using hview
      rw [hyx, hmf, hm, Option.map_some, Option.map_some, hcopy]
    · have hshow := congrArg Prod.snd (hu.cells y hyx)
      unfold shows views at hshow
      dsimp only at hshow
      rw [mapOf_kept A ht hj hu.tbl hkept hyx] at hshow ⊢
      cases hmy : mapOf s y with
      | none => rfl
      | some e =>
        obtain ⟨g', b'⟩ := e
        rw [hmy] at hshow
        by_cases hg : g' = 0
        · -- the page directory
          rw [Option.map_some, Option.map_some]
          refine congrArg some (funext fun k => hbelow _ ?_)
          have := k.isLt
          rw [hg]
          omega
        · simpa [pageView, hg] using hshow
  · by_cases hyx : y = (d, j)
    · rw [hyx]
      exact hunlocked
    · unfold Unlocked
      rw [mapOf_kept A ht hj hu.tbl hkept hyx]
      exact hy

/-- An entry that `write_verify` leaves alone. -/
theorem unlocked_of_and3 {x : Nat × Nat} {t : Nat} (ht : tblOf s x.1 = some t) (hj : x.2 < 1024)
    (hand : s.phys (t * 1024 + x.2) &&& 3#32 ≠ 1#32) : Unlocked s x := by
  intro e he
  rw [← Prod.eta x, mapOf_of_tbl ht hj] at he
  unfold entryOf at he
  by_cases hp : present (s.phys (t * 1024 + x.2)) = true
  · rw [if_pos hp] at he
    rw [← Option.some.inj he]
    by_contra hw
    exact hand (and3_eq_one hp (by simpa using hw))
  · rw [if_neg hp] at he
    cases he

/-- And one that it does not is present. -/
theorem present_of_and3 {w : Word} (h : w &&& 3#32 = 1#32) : present w = true := by
  have h0 := congrArg (fun v : Word => v.getLsbD 0) h
  rw [present_eq]
  simpa using h0

/-- **`write_verify`** at any address. In the kernel's part of the addresses it
finds nothing to do. -/
theorem writeVerify_kept (A : Acc lo hi s held) (K : KernelOpen lo s) (hcur : cur.InSlot slot)
    (hslot : 1 ≤ slot) (address : Nat) :
    wp (writeVerify cur address) (fun _ s' =>
      Acc lo hi s' held ∧ Kept lo s s' ∧ (16 ≤ dirEntry address → Unlocked s' (cellOf address)))
      (fun e _ => e = .exit) s := by
  have hj := tableIndex_lt address
  unfold writeVerify
  simp only [wp_bind, wp_load]
  by_cases hp : present (s.phys (dirEntry address)) = true
  · have htable := pageAddr_div (s.phys (dirEntry address))
    rw [if_pos hp, htable]
    simp only [wp_bind, wp_load]
    by_cases hand : s.phys (frameOf (s.phys (dirEntry address)) * 1024 + tableIndex address) &&&
        3#32 = 1#32
    · rw [if_pos hand]
      by_cases hd : dirEntry address < 16
      · exact absurd hand ((K _ hd hp).2 _ hj)
      · have hdir : dirEntry address ∈ dirs :=
          mem_dirs.mpr ⟨by omega, by rw [dirEntry_eq]; exact Nat.mod_lt _ (by decide)⟩
        have ht : tblOf s (dirEntry address) = some (frameOf (s.phys (dirEntry address))) :=
          tblOf_eq_some.mpr ⟨hdir, hp, rfl⟩
        have hm := mapOf_of_tbl ht hj
        rw [entryOf, if_pos (present_of_and3 hand)] at hm
        refine wp_mono (unWpPage_unlocks A hcur hslot ht hj hm) ?_ fun _ _ h => h
        rintro _ s' ⟨A', hkept, hunlocked⟩
        exact ⟨A', hkept, fun _ => hunlocked⟩
    · rw [if_neg hand]
      refine ⟨A, Kept.refl lo s, fun hd => ?_⟩
      have hdir : dirEntry address ∈ dirs :=
        mem_dirs.mpr ⟨hd, by rw [dirEntry_eq]; exact Nat.mod_lt _ (by decide)⟩
      exact unlocked_of_and3 (x := cellOf address) (tblOf_eq_some.mpr ⟨hdir, hp, rfl⟩) hj hand
  · rw [if_neg hp]
    refine ⟨A, Kept.refl lo s, fun hd e he => ?_⟩
    have hdir : dirEntry address ∈ dirs :=
      mem_dirs.mpr ⟨hd, by rw [dirEntry_eq]; exact Nat.mod_lt _ (by decide)⟩
    unfold cellOf at he
    rw [mapOf_eq_none_of_tbl ((tblOf_eq_none hdir).mpr (by simpa using hp))] at he
    cases he

/-! ## All the calls -/

/-- `write_verify` for some pages, counted from the base of the segment. -/
theorem writeVerify_pages (hcur : cur.InSlot slot) (hslot : 1 ≤ slot) (pages : List Nat)
    (A : Acc lo hi s held) (K : KernelOpen lo s) :
    wp (pages.forM fun p => writeVerify cur ((cur.dataBase + p * 4096) % 2 ^ 32)) (fun _ s' =>
      Acc lo hi s' held ∧ Kept lo s s' ∧ ∀ p, p ∈ pages → p < 16384 → Unlocked s' (cell slot p))
      (fun e _ => e = .exit) s := by
  induction pages generalizing s with
  | nil => exact ⟨A, Kept.refl lo s, fun p hp => absurd hp List.not_mem_nil⟩
  | cons p pages ih =>
    show wp (writeVerify cur _ >>= fun _ => pages.forM _) _ _ s
    rw [wp_bind]
    refine wp_mono (writeVerify_kept A K hcur hslot _) ?_ fun _ _ h => h
    intro _ s₁ ⟨A₁, hkept₁, hunlocked⟩
    refine wp_mono (ih A₁ (K.kept A.low hkept₁)) ?_ fun _ _ h => h
    intro _ s' ⟨A', hkept, hrest⟩
    refine ⟨A', hkept₁.trans hkept, fun q hq hlt => ?_⟩
    obtain rfl | hq := List.mem_cons.mp hq
    · have hcell : cellOf ((cur.dataBase + q * 4096) % 2 ^ 32) = cell slot q := by
        rw [cellOf_mod, hcur.data]
        exact cellOf_page hcur.slot_lt hlt
      have hdir : dirEntry ((cur.dataBase + q * 4096) % 2 ^ 32) = (cell slot q).1 :=
        congrArg Prod.fst hcell
      rw [hcell] at hunlocked
      refine hkept.unlocked _ (hunlocked ?_)
      rw [hdir]
      unfold cell
      dsimp only
      omega
    · exact hrest q hq hlt

/-- A page of main memory that may be written is owned. -/
theorem owned_of_unlocked (A : Acc lo hi s held) {x : Nat × Nat} (h : Unlocked s x)
    (hthere : mapOf s x ≠ none) : Owned s x := by
  have hlow := A.low
  obtain ⟨⟨f, b⟩, hm⟩ := Option.ne_none_iff_exists'.mp hthere
  have hb : b = true := h _ hm
  rw [hb] at hm
  obtain ⟨hlo, -, hone⟩ := A.inv.writable x (mem_cells_of_mapOf hm) f hm
  rw [space_cnt (by omega)] at hone
  exact ⟨f, hm, by omega, hone⟩

/-- **`verify_area`** covers a buffer, at any address and of any size, exactly if
the sum of the size and the offset in the page is no more than an `int` holds, and
a buffer of no bytes begins with its page. -/
theorem verify_area_covers (ok : m.Ok lo hi held) (K : KernelOpen lo m.mem)
    (hs : m.tasks slot = some cur) (haddr : addr < 2 ^ 32) (hsize : size < 2 ^ 31) :
    m.Covered slot cur addr size ↔
      size + addr % 4096 < 2 ^ 31 ∧ (size = 0 → addr % 4096 = 0) := by
  obtain ⟨hs1, hin⟩ := ok.live slot cur hs
  have htop := hin.top
  constructor
  · intro h
    exact (callsOnce_iff cur haddr hsize).mp h.1
  · intro h
    obtain ⟨pages, hnodup, hmem, hcalls⟩ := (callsOnce_iff cur haddr hsize).mpr h
    refine ⟨⟨pages, hnodup, hmem, hcalls⟩, ?_⟩
    unfold verifyArea
    rw [hcalls]
    refine wp_mono (writeVerify_pages hin hs1 pages ok.acc K) ?_ fun _ _ h => h
    intro _ s ⟨A, hkept, hunlocked⟩
    refine ⟨fun k hk hlim hthere => ?_, fun off hoff => ?_⟩
    · have hpage := (hmem _).mpr ⟨k, hk, rfl⟩
      exact owned_of_unlocked A (hunlocked _ hpage (by omega)) hthere
    · exact hkept.read hs1 hin.slot_lt (Nat.lt_of_lt_of_le hoff htop)

/-- The tables of `setup_paging` allow writing. -/
theorem kernelOpen_loneTask : KernelOpen (firstFrame 0x400000) loneTask.mem := by
  intro d hd hp
  have hd4 : d < 4 := by
    by_contra hge
    have hzero : loneTask.mem.phys d = 0#32 := by
      show setupPaging (fun _ => 0#32) d = 0#32
      unfold setupPaging
      rw [if_neg hge, if_pos (by omega)]
    rw [hzero, present_zero] at hp
    cases hp
  have hentry : loneTask.mem.phys d = entry7 ((d + 1) * 4096) := if_pos hd4
  rw [hentry, frameOf_entry7 (by omega)]
  refine ⟨by rw [show firstFrame 0x400000 = 1024 from rfl]; omega, fun j hj => ?_⟩
  have hword : loneTask.mem.phys ((d + 1) * 1024 + j) = entry7 ((d * 1024 + j) * 4096) := by
    show setupPaging (fun _ => 0#32) ((d + 1) * 1024 + j) = _
    unfold setupPaging
    rw [if_neg (by omega), if_neg (by omega), if_pos (by omega),
      show (d + 1) * 1024 + j - 1024 = d * 1024 + j by omega]
  rw [hword]
  unfold entry7
  rw [BitVec.and_or_distrib_right]
  intro heq
  have hbit := congrArg (fun v : Word => v.getLsbD 1) heq
  simp at hbit

/-- Eight bytes across the end of a page. -/
theorem verify_area_covers_two :
    ∃ cur, loneTask.tasks 1 = some cur ∧ loneTask.Covered 1 cur 4092 8 :=
  ⟨_, rfl, (verify_area_covers ok_loneTask kernelOpen_loneTask rfl (by decide) (by decide)).mpr
    (by decide)⟩

/-- A buffer of 2 ^ 31 - 1 bytes at offset 1, for a child just forked: its first
page is still shared with the parent, and may not be written. -/
theorem verify_area_skips :
    ∃ m cur f s, loneTask.run [.store 1 5 7#8, .fork 1 2] = .done m ∧ m.tasks 2 = some cur ∧
      verifyArea cur 1 (2 ^ 31 - 1 : Nat) m.mem = .ok () s ∧
      mapOf s (cell 2 0) = some (f, false) ∧ ¬ m.Covered 2 cur 1 (2 ^ 31 - 1) := by
  obtain ⟨m, cur, hrun, -, hcur, hlim, ⟨f, hpage⟩, -⟩ := loneTask_forked
  have hskip : ∀ verify, verifyAreaBy verify cur 1 (2 ^ 31 - 1 : Nat) = pure () := fun verify =>
    verifyAreaBy_overflow verify cur (by decide) (by decide) (by decide)
  refine ⟨m, cur, f, m.mem, hrun, hcur, ?_, hpage, fun h => ?_⟩
  · unfold verifyArea
    rw [hskip]
    rfl
  · have hown := h.2
    unfold verifyArea at hown
    rw [hskip, wp_pure] at hown
    obtain ⟨g, hg, -⟩ := hown.1 0 (by decide) (Nat.lt_of_lt_of_le (by decide) hlim)
      (by rw [hpage]; simp)
    rw [hpage] at hg
    cases hg

end Linux011.Mm
