import Linux011.Fs.Directory

/-!
# Directories — every buffer is released once

`find_entry`, `add_entry`, `empty_dir` and `free_block` on any directory and any
failures of reads, up to which each of them keeps the counts of the buffers and
touches only what it has.

* `Walk` — what a scan meets, entry by entry;
* `findLoop_balanced`, `addLoop_balanced`, `emptyLoop_balanced` — the loops;
* `find_entry_balanced`, `add_entry_balanced`, `empty_dir_balanced`,
  `free_block_balanced` — the calls.
-/

namespace Linux011.Fs.Directory

open Linux011.Lib ZoneMap FileData

/-! ## Scans -/

/-- `R` holds for each block that a scan from entry `i` on begins, if it goes on
as long as `U` holds. -/
def Walk (U R : Nat → Prop) (i : Nat) : Prop :=
  ∀ b, i ≤ dirEntriesPerBlock * b → (∀ j, i ≤ j → j < dirEntriesPerBlock * b → U j) → R b

section Walk

variable {U R : Nat → Prop} {i b : Nat}

theorem walk_begins (hi : i = dirEntriesPerBlock * b) (h : Walk U R i) : R b :=
  h b (Nat.le_of_eq hi) fun _ hij hj => absurd (hi ▸ hij) (Nat.not_le_of_lt hj)

theorem walk_ends (h : ∀ b, i ≤ dirEntriesPerBlock * b → R b) : Walk U R i := fun b hb _ => h b hb

/-- The scan ends at an entry. -/
theorem walk_stop (hU : ¬ U i) (hb : ∀ b, i = dirEntriesPerBlock * b → R b) : Walk U R i := by
  intro b hle hall
  by_cases heq : i = dirEntriesPerBlock * b
  · exact hb b heq
  · exact absurd (hall i (Nat.le_refl i) (by omega)) hU

/-- The scan goes on after an entry. -/
theorem walk_step (hU : U i) (hb : ∀ b, i = dirEntriesPerBlock * b → R b) :
    Walk U R (i + 1) ↔ Walk U R i := by
  constructor
  · intro h b hle hall
    by_cases heq : i = dirEntriesPerBlock * b
    · exact hb b heq
    · exact h b (by omega) fun j hij hj => hall j (by omega) hj
  · intro h b hle hall
    refine h b (by omega) fun j hij hj => ?_
    by_cases heq : j = i
    · exact heq ▸ hU
    · exact hall j (by omega) hj

end Walk

/-! ## find_entry -/

/-- A call leaves the counts as they were, but for the buffer it returns. -/
def Kept (m : Dirs) (bh : Option Buf) (m' : Dirs) : Prop :=
  ∀ x, m'.count x = m.count x + if bh = some x then 1 else 0

/-- The call has no buffer yet. -/
def Dirs.begin (m : Dirs) : Dirs := { m with held := fun _ => 0 }

/-- **Every buffer is released once**: the call touches only buffers that it has,
and keeps at most the one it returns. It may panic. -/
def Balanced {α : Type} (c : DM α) (m : Dirs) (bh : α → Option Buf) : Prop :=
  wp c (fun r m' => Kept m (bh r) m') (fun e _ => e = .panic) m.begin

variable {m : Dirs} {dir : Ino} {name : List Byte} {ok : Nat → Nat → Bool}

theorem kept_refl (m : Dirs) : Kept m none m := fun _ => by simp

@[simp] theorem begin_count (m : Dirs) : m.begin.count = m.count := rfl

theorem kept_begin (m : Dirs) : Kept m none m.begin := fun _ => by simp

theorem kept_hold (m : Dirs) (bh : Buf) : Kept m (some bh) (m.hold bh) := by
  intro x
  by_cases hx : bh = x
  · simp [Dirs.hold, hx]
  · simp [Dirs.hold, hx, Function.update_of_ne (Ne.symm hx)]

/-- Entry `j` of the directory can be read, and has another name. -/
def Unmatched (m : Dirs) (dir : Ino) (name : List Byte) (ok : Nat → Nat → Bool) (j : Nat) : Prop :=
  ∃ bh, m.load dir (j / dirEntriesPerBlock) (ok (j / dirEntriesPerBlock)) = some bh ∧
    m.match name bh (j % dirEntriesPerBlock) = false

/-- The block can be read, unless the entries end with it. -/
def Passable (m : Dirs) (dir : Ino) (entries : Nat) (ok : Nat → Nat → Bool) (b : Nat) : Prop :=
  dirEntriesPerBlock * (b + 1) < entries → b < maxBlock → m.load dir b (ok b) ≠ none

/-- One entry. -/
theorem findHere_balanced {entries rounds i k c : Nat} {cur : Buf} (hk : k < dirEntriesPerBlock)
    (hi : i = dirEntriesPerBlock * c + k) (hcur : m.load dir c (ok c) = some cur)
    (ih : wp (findLoop dir name entries ok rounds (i + 1) (some cur) (k + 1))
        (fun r m' => Kept m (r.map Prod.fst) m') (fun e _ => e = .panic) (m.hold cur) ↔
      Walk (Unmatched m dir name ok) (Passable m dir entries ok) (i + 1)) :
    wp (do
        let m ← get
        if m.match name cur k then return some (cur, k)
        else findLoop dir name entries ok rounds (i + 1) (some cur) (k + 1))
      (fun r m' => Kept m (r.map Prod.fst) m') (fun e _ => e = .panic) (m.hold cur) ↔
      Walk (Unmatched m dir name ok) (Passable m dir entries ok) i := by
  obtain ⟨hdiv, hmod⟩ := entry_div hk hi
  have hread : ∀ b, i = dirEntriesPerBlock * b → Passable m dir entries ok b := by
    intro b hb _ _
    simp [entry_block hk hi hb, hcur]
  have hsame : (m.hold cur).match name cur k = m.match name cur k := rfl
  simp only [wp_bind, wp_get, hsame]
  cases hmatch : m.match name cur k with
  | true =>
    refine iff_of_true (kept_hold m cur) (walk_stop ?_ hread)
    intro hU
    obtain ⟨bh, hload, hno⟩ := hU
    rw [hdiv, hcur] at hload
    cases hload
    rw [hmod, hmatch] at hno
    cases hno
  | false =>
    rw [if_neg (by simp), ih]
    refine walk_step ⟨cur, ?_, ?_⟩ hread
    · rw [hdiv, hcur]
    · rw [hmod, hmatch]

/-- The loop of `find_entry` from entry `i` on, which is entry `k` of block `c`. -/
theorem findLoop_balanced {entries rounds i k c : Nat} {cur : Buf} (hk : k ≤ dirEntriesPerBlock)
    (hi : i = dirEntriesPerBlock * c + k) (hle : i ≤ entries) (hrounds : entries < i + rounds)
    (hcur : m.load dir c (ok c) = some cur) :
    wp (findLoop dir name entries ok rounds i (some cur) k)
      (fun r m' => Kept m (r.map Prod.fst) m') (fun e _ => e = .panic) (m.hold cur) ↔
      Walk (Unmatched m dir name ok) (Passable m dir entries ok) i := by
  induction rounds generalizing i k c cur with
  | zero => omega
  | succ rounds ih =>
    unfold findLoop
    by_cases hend : entries ≤ i
    · rw [if_pos hend]
      simp only [wp_bind, wp_brelse_hold, wp_pure]
      refine iff_of_true (kept_refl m) (walk_ends fun b hb hlt => ?_)
      have : dirEntriesPerBlock * (b + 1) = dirEntriesPerBlock * b + dirEntriesPerBlock := rfl
      omega
    rw [if_neg hend]
    by_cases hblock : k < dirEntriesPerBlock
    · simp only [wp_bind, wp_touch_hold, if_pos hblock]
      have hhere := findHere_balanced hblock hi hcur
        (ih (by omega) (by omega : i + 1 = dirEntriesPerBlock * c + (k + 1)) (by omega) (by omega) hcur)
      simpa only [wp_bind] using hhere
    · obtain ⟨hnext, hdiv⟩ := entry_next hk hblock hi
      simp only [wp_bind, wp_touch_hold, if_neg hblock, wp_brelse_hold, hdiv]
      rw [wp_bmap_lookup (by simp)]
      by_cases hmax : maxBlock ≤ c + 1
      · rw [if_pos hmax]
        refine iff_of_true rfl (walk_ends fun b hb _ hlt => ?_)
        have : c + 1 ≤ b := Nat.le_of_mul_le_mul_left (hnext ▸ hb) (by decide)
        omega
      rw [if_neg hmax, wp_fetch]
      cases hload : m.load dir (c + 1) (ok (c + 1)) with
      | none =>
        obtain ⟨rounds, rfl⟩ : ∃ n, rounds = n + 1 := ⟨rounds - 1, by omega⟩
        dsimp only
        unfold findLoop
        by_cases hlast : entries ≤ i + dirEntriesPerBlock
        · rw [if_pos hlast]
          refine iff_of_true (kept_refl m) (walk_ends fun b hb hlt => ?_)
          have : dirEntriesPerBlock * (b + 1) = dirEntriesPerBlock * b + dirEntriesPerBlock := rfl
          omega
        · rw [if_neg hlast]
          -- `BLOCK_SIZE+bh->b_data` with no buffer
          refine iff_of_false (by simp) fun hwalk => walk_begins hnext hwalk ?_ (by omega) hload
          rw [Nat.mul_succ]
          omega
      | some cur' =>
        have hhere := findHere_balanced (by decide : 0 < dirEntriesPerBlock)
          (by omega : i = dirEntriesPerBlock * (c + 1) + 0) hload
          (ih (by decide) (by omega : i + 1 = dirEntriesPerBlock * (c + 1) + (0 + 1)) (by omega)
            (by omega) hload)
        simpa only [wp_bind] using hhere

@[simp] theorem exchange_vol (m : Dirs) (d d' : Ino) : (m.exchange d d').vol = m.vol := by
  unfold Dirs.exchange
  split_ifs <;> rfl

@[simp] theorem exchange_uptodate (m : Dirs) (d d' : Ino) :
    (m.exchange d d').uptodate = m.uptodate := by
  unfold Dirs.exchange
  split_ifs <;> rfl

@[simp] theorem exchange_count (m : Dirs) (d d' : Ino) : (m.exchange d d').count = m.count := by
  unfold Dirs.exchange
  split_ifs <;> rfl

/-- The reads of blocks do not depend on who has buffers. -/
theorem load_congr {m' : Dirs} (hvol : m'.vol = m.vol) (hup : m'.uptodate = m.uptodate) (b : Nat)
    (okb : Nat → Bool) : m'.load dir b okb = m.load dir b okb := by
  unfold Dirs.load Dirs.zoneOf Dirs.indexed Dirs.readable
  rw [hvol, hup]

theorem match_congr {m' : Dirs} (hvol : m'.vol = m.vol) (bh : Buf) (k : Nat) :
    m'.match name bh k = m.match name bh k := by
  unfold Dirs.match Dirs.deInode Dirs.deName
  rw [hvol]

theorem unmatched_congr {m' : Dirs} (hvol : m'.vol = m.vol) (hup : m'.uptodate = m.uptodate) :
    Unmatched m' dir name ok = Unmatched m dir name ok := by
  funext j
  simp only [Unmatched, load_congr hvol hup, match_congr hvol]

theorem passable_congr {m' : Dirs} (hvol : m'.vol = m.vol) (hup : m'.uptodate = m.uptodate)
    (entries : Nat) : Passable m' dir entries ok = Passable m dir entries ok := by
  funext b
  simp only [Passable, load_congr hvol hup]

/-- Nothing to look for, no first block, or a scan that meets only blocks that it
can read, but for the last one. -/
def FindSafe (m : Dirs) (dir : Ino) (name : List Byte) (ok : Nat → Nat → Bool) : Prop :=
  name = [] ∨ m.load (m.goUp dir (name.take nameLen)).1 0 (ok 0) = none ∨
    Walk (Unmatched m (m.goUp dir (name.take nameLen)).1 (m.goUp dir (name.take nameLen)).2 ok)
      (Passable m (m.goUp dir (name.take nameLen)).1 (m.size dir / entrySize) ok) 0

/-- **`find_entry`** on any directory. -/
theorem find_entry_balanced (m : Dirs) (dir : Ino) (name : List Byte) (ok : Nat → Nat → Bool) :
    Balanced (findEntry dir name ok) m (fun r => r.2.map Prod.fst) ↔ FindSafe m dir name ok := by
  unfold Balanced findEntry FindSafe
  by_cases hname : name = []
  · simpa [hname] using kept_begin m
  rw [or_iff_right hname]
  have hup : m.begin.goUp dir (name.take nameLen) = m.goUp dir (name.take nameLen) := rfl
  simp only [wp_bind, wp_get, if_neg hname, hup, wp_set]
  generalize m.goUp dir (name.take nameLen) = up
  obtain ⟨d, name⟩ := up
  dsimp only
  have hvol : (m.begin.exchange dir d).vol = m.vol := exchange_vol _ _ _
  have htodate : (m.begin.exchange dir d).uptodate = m.uptodate := exchange_uptodate _ _ _
  have hcount : (m.begin.exchange dir d).count = m.count := exchange_count _ _ _
  have hzone : (m.begin.vol d.1).disk.zone d.2 0 = (m.begin.exchange dir d).zoneOf d 0 (ok 0) := by
    simp
  rw [hzone, wp_fetch, load_congr hvol htodate]
  cases hload : m.load d 0 (ok 0) with
  | none =>
    refine iff_of_true (fun x => ?_) (Or.inl rfl)
    simp
  | some cur =>
    rw [or_iff_right (by simp), ← unmatched_congr hvol htodate, ← passable_congr hvol htodate]
    have hkept : ∀ bh m', Kept m bh m' ↔ Kept (m.begin.exchange dir d) bh m' := fun bh m' => by
      rw [Kept, Kept, hcount]
    simp only [wp_bind, wp_pure, hkept]
    rw [← load_congr hvol htodate] at hload
    exact findLoop_balanced (by decide) rfl (Nat.zero_le _) (by omega) hload

/-! ## add_entry -/

/-- Entry `j` is in the directory, can be read, and is in use. -/
def InUse (m : Dirs) (dir : Ino) (ok : Nat → Nat → Bool) (j : Nat) : Prop :=
  j * entrySize < m.size dir ∧
    ∃ bh, m.load dir (j / dirEntriesPerBlock) (ok (j / dirEntriesPerBlock)) = some bh ∧
      m.deInode bh (j % dirEntriesPerBlock) ≠ 0

/-- The block can be read, if there is one. -/
def Readable (m : Dirs) (dir : Ino) (ok : Nat → Nat → Bool) (b : Nat) : Prop :=
  b < maxBlock → m.zoneOf dir b (ok b) ≠ 0 → m.load dir b (ok b) ≠ none

/-- The entry is free, or past the end. -/
theorem takeEntry_free {i k : Nat} {bh : Buf} {E : Fault → Dirs → Prop}
    (h : m.size dir ≤ i * entrySize ∨ m.deInode bh k = 0) :
    wp (takeEntry dir name i bh k) (fun r m' => r = true ∧ m'.count = m.count) E m := by
  unfold takeEntry
  by_cases hsize : m.size dir ≤ i * entrySize
  · simp only [wp_bind, wp_get, if_pos hsize, wp_set, deInode_setSize, deInode_clear, if_true,
      wp_pure, true_and]
    rfl
  · simp only [wp_bind, wp_get, if_neg hsize, wp_pure, h.resolve_left hsize, if_true, wp_set,
      true_and]
    rfl

/-- One entry. -/
theorem addHere_balanced (name : List Byte) {rounds i k c : Nat} {cur : Buf} (hk : k < dirEntriesPerBlock)
    (hi : i = dirEntriesPerBlock * c + k) (hcur : m.load dir c (ok c) = some cur)
    (ih : i * entrySize < m.size dir →
      (wp (addLoop dir name ok rounds (i + 1) (some cur) (k + 1))
        (fun r m' => Kept m (r.map Prod.fst) m') (fun e _ => e = .panic) (m.hold cur) ↔
      Walk (InUse m dir ok) (Readable m dir ok) (i + 1))) :
    wp (do
        if ← takeEntry dir name i cur k then return some (cur, k)
        else addLoop dir name ok rounds (i + 1) (some cur) (k + 1))
      (fun r m' => Kept m (r.map Prod.fst) m') (fun e _ => e = .panic) (m.hold cur) ↔
      Walk (InUse m dir ok) (Readable m dir ok) i := by
  obtain ⟨hdiv, hmod⟩ := entry_div hk hi
  have hread : ∀ b, i = dirEntriesPerBlock * b → Readable m dir ok b := by
    intro b hb _ _
    simp [entry_block hk hi hb, hcur]
  rw [wp_bind]
  by_cases hused : i * entrySize < m.size dir ∧ m.deInode cur k ≠ 0
  · rw [takeEntry_used (m := m.hold cur) hused.1 hused.2, if_neg (by simp), ih hused.1]
    refine walk_step ⟨hused.1, cur, ?_, ?_⟩ hread
    · rw [hdiv, hcur]
    · rw [hmod]
      exact hused.2
  · refine iff_of_true ?_ (walk_stop ?_ hread)
    · have hfree : (m.hold cur).size dir ≤ i * entrySize ∨ (m.hold cur).deInode cur k = 0 := by
        rw [not_and_or, not_lt, not_not] at hused
        exact hused
      refine wp_mono (takeEntry_free hfree) ?_ fun _ _ he => he
      intro r m' ⟨hr, hcount⟩
      rw [if_pos hr]
      intro x
      rw [hcount]
      exact kept_hold m cur x
    · intro hU
      obtain ⟨hsize, bh, hload, hino⟩ := hU
      rw [hdiv, hcur] at hload
      cases hload
      rw [hmod] at hino
      exact hused ⟨hsize, hino⟩

/-- A new block has room for the entry. -/
theorem addHere_created {m' : Dirs} {rounds i k y : Nat} {okb : Bool} (hc : Created m m' dir.1 y) :
    wp (do
        if y = 0 then return none
        else
          match ← bread okb (dir.1, y) with
          | none => addLoop dir name ok rounds (i + dirEntriesPerBlock) none k
          | some cur =>
            if ← takeEntry dir name i cur 0 then return some (cur, 0)
            else addLoop dir name ok rounds (i + 1) (some cur) 1)
      (fun r m' => Kept m (r.map Prod.fst) m') (fun e _ => e = .panic) m' := by
  by_cases hy : y = 0
  · rw [if_pos hy]
    intro x
    rw [hc.count]
    exact kept_refl m x
  obtain ⟨hup, hzero⟩ := hc.fresh hy
  have hread : m'.readable okb (dir.1, y) = true := by simp [Dirs.readable, hup]
  rw [if_neg hy, wp_bind, wp_bread, if_pos hread]
  dsimp only
  rw [wp_bind]
  have hfree : (m'.hold (dir.1, y)).deInode (dir.1, y) 0 = 0 := by
    simp [Dirs.deInode, byte, hzero]
  refine wp_mono (takeEntry_free (Or.inr hfree)) ?_ fun _ _ he => he
  rintro r m₁ ⟨hr, hcount⟩
  rw [if_pos hr]
  intro x
  rw [hcount, ← hc.count]
  exact kept_hold m' _ x

/-- The loop of `add_entry` from entry `i` on, which is entry `k` of block `c`. -/
theorem addLoop_balanced {rounds i k c : Nat} {cur : Buf} (hk : k ≤ dirEntriesPerBlock)
    (hi : i = dirEntriesPerBlock * c + k) (hle : i ≤ m.size dir / entrySize + 1)
    (hrounds : m.size dir / entrySize + 3 ≤ i + rounds) (hcur : m.load dir c (ok c) = some cur) :
    wp (addLoop dir name ok rounds i (some cur) k)
      (fun r m' => Kept m (r.map Prod.fst) m') (fun e _ => e = .panic) (m.hold cur) ↔
      Walk (InUse m dir ok) (Readable m dir ok) i := by
  induction rounds generalizing i k c cur with
  | zero => omega
  | succ rounds ih =>
    have hin : i * entrySize < m.size dir → i + 1 ≤ m.size dir / entrySize + 1 := by
      intro h
      have := Nat.div_le_div_right (c := entrySize) (Nat.le_of_lt h)
      rw [Nat.mul_div_cancel _ (by decide)] at this
      omega
    unfold addLoop
    by_cases hblock : k < dirEntriesPerBlock
    · simp only [wp_bind, wp_touch_hold, if_pos hblock]
      have hhere := addHere_balanced name hblock hi hcur fun h =>
        ih (by omega) (by omega : i + 1 = dirEntriesPerBlock * c + (k + 1)) (hin h) (by omega) hcur
      simpa only [wp_bind] using hhere
    · obtain ⟨hnext, hdiv⟩ := entry_next hk hblock hi
      simp only [wp_bind, wp_touch_hold, if_neg hblock, wp_brelse_hold, hdiv]
      by_cases hzone : m.zoneOf dir (c + 1) (ok (c + 1)) = 0
      · have hload : m.load dir (c + 1) (ok (c + 1)) = none := by simp [Dirs.load, hzone]
        refine iff_of_true ?_ (walk_stop ?_ ?_)
        · refine wp_mono (bmap_created hzone) ?_ fun _ _ he => he
          intro y m' hc
          exact addHere_created hc
        · intro hU
          obtain ⟨-, bh, hbh, -⟩ := hU
          rw [hdiv, hload] at hbh
          cases hbh
        · intro b hb _ hne
          have hbc : b = c + 1 := Nat.eq_of_mul_eq_mul_left (by decide) (hb.symm.trans hnext)
          exact absurd (hbc ▸ hzone) hne
      rw [wp_bmap_lookup fun _ => hzone]
      by_cases hmax : maxBlock ≤ c + 1
      · rw [if_pos hmax]
        refine iff_of_true rfl (walk_ends fun b hb hlt _ => ?_)
        have : c + 1 ≤ b := Nat.le_of_mul_le_mul_left (hnext ▸ hb) (by decide)
        omega
      rw [if_neg hmax, if_neg hzone, wp_bind, wp_bread]
      cases hload : m.load dir (c + 1) (ok (c + 1)) with
      | none =>
        obtain ⟨rounds, rfl⟩ : ∃ n, rounds = n + 1 := ⟨rounds - 1, by omega⟩
        have hread : ¬ m.readable (ok (c + 1) 2) (dir.1, m.zoneOf dir (c + 1) (ok (c + 1))) = true := by
          simpa [Dirs.load, hzone] using hload
        rw [if_neg hread]
        unfold addLoop
        refine iff_of_false (by simp) fun hwalk => walk_begins hnext hwalk (by omega) hzone hload
      | some cur' =>
        have hread : m.readable (ok (c + 1) 2) (dir.1, m.zoneOf dir (c + 1) (ok (c + 1))) = true ∧
            (dir.1, m.zoneOf dir (c + 1) (ok (c + 1))) = cur' := by
          simpa [Dirs.load, hzone] using hload
        rw [if_pos hread.1, hread.2]
        have hhere := addHere_balanced name (by decide : 0 < dirEntriesPerBlock)
          (by omega : i = dirEntriesPerBlock * (c + 1) + 0) hload fun h =>
            ih (by decide) (by omega : i + 1 = dirEntriesPerBlock * (c + 1) + (0 + 1)) (hin h)
              (by omega) hload
        exact hhere

/-- Nothing to add, no first block, or a scan that can read the blocks it meets. -/
def AddSafe (m : Dirs) (dir : Ino) (name : List Byte) (ok : Nat → Nat → Bool) : Prop :=
  name = [] ∨ m.load dir 0 (ok 0) = none ∨ Walk (InUse m dir ok) (Readable m dir ok) 0

/-- **`add_entry`** on any directory. -/
theorem add_entry_balanced (m : Dirs) (dir : Ino) (name : List Byte) (ok : Nat → Nat → Bool) :
    Balanced (addEntry dir name ok) m (Option.map Prod.fst) ↔ AddSafe m dir name ok := by
  unfold Balanced addEntry AddSafe
  by_cases hname : name = []
  · simpa [hname] using kept_begin m
  rw [or_iff_right hname]
  have hzone : (m.begin.vol dir.1).disk.zone dir.2 0 = m.begin.zoneOf dir 0 (ok 0) := rfl
  simp only [wp_bind, wp_get, if_neg hname, hzone]
  rw [wp_fetch]
  have hsame : m.begin.load dir 0 (ok 0) = m.load dir 0 (ok 0) := rfl
  cases hload : m.load dir 0 (ok 0) with
  | none =>
    rw [hsame, hload]
    exact iff_of_true (kept_begin m) (Or.inl rfl)
  | some cur =>
    rw [or_iff_right (by simp), hsame, hload]
    exact addLoop_balanced (m := m.begin) (c := 0) (by decide) rfl (Nat.zero_le _) (by omega) hload

/-! ## empty_dir -/

/-- Entry `j` of the directory can be read, and is free. -/
def Unused (m : Dirs) (dir : Ino) (ok : Nat → Nat → Bool) (j : Nat) : Prop :=
  ∃ bh, m.load dir (j / dirEntriesPerBlock) (ok (j / dirEntriesPerBlock)) = some bh ∧
    m.deInode bh (j % dirEntriesPerBlock) = 0

/-- There is such a block, if there are entries in it. -/
def Present (m : Dirs) (dir : Ino) (len : Nat) (ok : Nat → Nat → Bool) (b : Nat) : Prop :=
  dirEntriesPerBlock * b < len → b < maxBlock → m.zoneOf dir b (ok b) ≠ 0

theorem zoneOf_load {b : Nat} {okb : Nat → Bool} {bh : Buf} (h : m.load dir b okb = some bh) :
    m.zoneOf dir b okb ≠ 0 := by
  intro hz
  simp [Dirs.load, hz] at h

/-- One entry. -/
theorem emptyHere_balanced {len rounds i k c : Nat} {cur : Buf} (hk : k < dirEntriesPerBlock)
    (hi : i = dirEntriesPerBlock * c + k) (hcur : m.load dir c (ok c) = some cur)
    (ih : wp (emptyLoop dir len ok rounds (i + 1) cur (k + 1))
        (fun _ m' => Kept m none m') (fun e _ => e = .panic) (m.hold cur) ↔
      Walk (Unused m dir ok) (Present m dir len ok) (i + 1)) :
    wp (do
        let m ← get
        if m.deInode cur k ≠ 0 then
          brelse (some cur)
          return false
        else emptyLoop dir len ok rounds (i + 1) cur (k + 1))
      (fun _ m' => Kept m none m') (fun e _ => e = .panic) (m.hold cur) ↔
      Walk (Unused m dir ok) (Present m dir len ok) i := by
  obtain ⟨hdiv, hmod⟩ := entry_div hk hi
  have hthere : ∀ b, i = dirEntriesPerBlock * b → Present m dir len ok b := by
    intro b hb _ _
    rw [entry_block hk hi hb]
    exact zoneOf_load hcur
  have hsame : (m.hold cur).deInode cur k = m.deInode cur k := rfl
  simp only [wp_bind, wp_get, hsame]
  by_cases hfree : m.deInode cur k = 0
  · rw [if_neg (by simp [hfree]), ih]
    refine walk_step ⟨cur, ?_, ?_⟩ hthere
    · rw [hdiv, hcur]
    · rw [hmod, hfree]
  · rw [if_pos hfree, wp_bind, wp_brelse_hold]
    refine iff_of_true (kept_refl m) (walk_stop ?_ hthere)
    intro hU
    obtain ⟨bh, hload, hno⟩ := hU
    rw [hdiv, hcur] at hload
    cases hload
    rw [hmod] at hno
    exact hfree hno

/-- The loop of `empty_dir` from entry `i` on, which is entry `k` of block `c`. -/
theorem emptyLoop_balanced (hm : ∀ x, m.held x = 0) {len rounds i k c : Nat} {cur : Buf}
    (hk : k ≤ dirEntriesPerBlock) (hi : i = dirEntriesPerBlock * c + k) (hle : i ≤ len)
    (hrounds : len < i + rounds) (hcur : m.load dir c (ok c) = some cur) :
    wp (emptyLoop dir len ok rounds i cur k)
      (fun _ m' => Kept m none m') (fun e _ => e = .panic) (m.hold cur) ↔
      Walk (Unused m dir ok) (Present m dir len ok) i := by
  induction rounds generalizing i k c cur with
  | zero => omega
  | succ rounds ih =>
    unfold emptyLoop
    by_cases hend : len ≤ i
    · rw [if_pos hend]
      simp only [wp_bind, wp_brelse_hold, wp_pure]
      refine iff_of_true (kept_refl m) (walk_ends fun b hb hlt => ?_)
      omega
    rw [if_neg hend]
    by_cases hblock : k < dirEntriesPerBlock
    · simp only [wp_bind, wp_touch_hold, if_pos hblock]
      have hhere := emptyHere_balanced hblock hi hcur
        (ih (by omega) (by omega : i + 1 = dirEntriesPerBlock * c + (k + 1)) (by omega) (by omega) hcur)
      simpa only [wp_bind] using hhere
    · obtain ⟨hnext, hdiv⟩ := entry_next hk hblock hi
      simp only [wp_bind, wp_touch_hold, if_neg hblock, wp_brelse_hold, hdiv]
      rw [wp_bmap_lookup (by simp)]
      by_cases hmax : maxBlock ≤ c + 1
      · rw [if_pos hmax]
        refine iff_of_true rfl (walk_ends fun b hb _ hlt => ?_)
        have : c + 1 ≤ b := Nat.le_of_mul_le_mul_left (hnext ▸ hb) (by decide)
        omega
      rw [if_neg hmax]
      by_cases hzone : m.zoneOf dir (c + 1) (ok (c + 1)) = 0
      · obtain ⟨rounds, rfl⟩ : ∃ n, rounds = n + 1 := ⟨rounds - 1, by omega⟩
        rw [if_pos hzone]
        unfold emptyLoop
        -- `bh` is released, and looked at or released once more
        refine iff_of_false ?_ fun hwalk => walk_begins hnext hwalk (by omega) (by omega) hzone
        split_ifs <;> simp [wp_brelse_released (hm cur), wp_touch_released (hm cur)]
      rw [if_neg hzone, wp_bind, wp_bread]
      by_cases hread : m.readable (ok (c + 1) 2) (dir.1, m.zoneOf dir (c + 1) (ok (c + 1))) = true
      · rw [if_pos hread]
        have hload : m.load dir (c + 1) (ok (c + 1)) =
            some (dir.1, m.zoneOf dir (c + 1) (ok (c + 1))) := by simp [Dirs.load, hzone, hread]
        have hhere := emptyHere_balanced (by decide : 0 < dirEntriesPerBlock)
          (by omega : i = dirEntriesPerBlock * (c + 1) + 0) hload
          (ih (by decide) (by omega : i + 1 = dirEntriesPerBlock * (c + 1) + (0 + 1)) (by omega)
            (by omega) hload)
        exact hhere
      · rw [if_neg hread]
        refine iff_of_true (kept_refl m) (walk_stop ?_ ?_)
        · intro hU
          obtain ⟨bh, hbh, -⟩ := hU
          rw [hdiv] at hbh
          simp [Dirs.load, hread] at hbh
        · intro b hb _ _
          rw [Nat.eq_of_mul_eq_mul_left (by decide) (hb.symm.trans hnext)]
          exact hzone

/-- No first block, or a directory with `.` and `..` and a scan that meets no hole. -/
def EmptySafe (m : Dirs) (dir : Ino) (ok : Nat → Nat → Bool) : Prop :=
  m.size dir / entrySize < 2 ∨
    ∀ bh, m.load dir 0 (ok 0) = some bh → m.headed dir bh = true ∧
      Walk (Unused m dir ok) (Present m dir (m.size dir / entrySize) ok) 2

/-- **`empty_dir`** on any directory. -/
theorem empty_dir_balanced (m : Dirs) (dir : Ino) (ok : Nat → Nat → Bool) :
    Balanced (emptyDir dir ok) m (fun _ => none) ↔ EmptySafe m dir ok := by
  unfold Balanced emptyDir EmptySafe
  have hsize : m.begin.size dir = m.size dir := rfl
  have hzone : (m.begin.vol dir.1).disk.zone dir.2 0 = m.begin.zoneOf dir 0 (ok 0) := rfl
  have hsame : m.begin.load dir 0 (ok 0) = m.load dir 0 (ok 0) := rfl
  simp only [wp_bind, wp_get, hsize, hzone]
  by_cases hlen : m.size dir / entrySize < 2
  · rw [if_pos (Or.inl hlen)]
    exact iff_of_true (kept_begin m) (Or.inl hlen)
  refine Iff.trans ?_ (or_iff_right hlen).symm
  by_cases hz : m.begin.zoneOf dir 0 (ok 0) = 0
  · rw [if_pos (Or.inr hz)]
    refine iff_of_true (kept_begin m) fun bh hbh => ?_
    rw [← hsame] at hbh
    exact absurd hz (zoneOf_load hbh)
  have hfetch : bread (ok 0 2) (dir.1, m.begin.zoneOf dir 0 (ok 0)) =
      fetch (ok 0 2) dir.1 (m.begin.zoneOf dir 0 (ok 0)) := (if_neg hz).symm
  rw [if_neg (not_or.mpr ⟨hlen, hz⟩), hfetch, wp_bind, wp_fetch, hsame]
  cases hload : m.load dir 0 (ok 0) with
  | none => exact iff_of_true (kept_begin m) (by simp)
  | some cur =>
    have hhead : (m.begin.hold cur).headed dir cur = m.headed dir cur := rfl
    simp only [wp_bind, wp_get, hhead, Option.some.injEq, forall_eq']
    by_cases hgood : m.headed dir cur = true
    · rw [if_neg (by simp [hgood]), and_iff_right hgood]
      exact emptyLoop_balanced (m := m.begin) (c := 0) (fun _ => rfl) (by decide) rfl (by omega)
        (by omega) hload
    · -- the buffer is still held
      rw [if_pos (by simpa using hgood)]
      refine iff_of_false (fun hkept => ?_) fun h => hgood h.1
      have := hkept cur
      simp [Dirs.hold] at this

/-! ## free_block -/

/-- A panic, or a block whose buffer nobody uses. -/
def FreeSafe (m : Dirs) (dev block : Nat) : Prop :=
  m.super dev = false ∨
    (block < (m.vol dev).disk.firstdatazone ∨ (m.vol dev).disk.nzones ≤ block) ∨
    m.cached (dev, block) = false ∨ m.count (dev, block) = 0

/-- The bit is cleared, or was clear. -/
theorem clearBit_kept (dev block : Nat) (m₁ : Dirs) (hcount : m₁.count = m.count) :
    wp (do
        let m ← get
        match (m.vol dev).disk.freeBlock block with
        | none => throw .panic
        | some disk => set (m.setDisk dev disk))
      (fun _ m' => Kept m none m') (fun e _ => e = Fault.panic) m₁ := by
  rw [wp_bind, wp_get]
  split
  · simp
  · intro x
    simp [Dirs.setDisk, hcount]

/-- **`free_block`** of any zone. -/
theorem free_block_balanced (m : Dirs) (dev block : Nat) :
    Balanced (freeBlock dev block) m (fun _ => none) ↔ FreeSafe m dev block := by
  unfold Balanced freeBlock FreeSafe
  have hsuper : m.begin.super dev = m.super dev := rfl
  have hvol : m.begin.vol dev = m.vol dev := rfl
  have hcached : m.begin.cached (dev, block) = m.cached (dev, block) := rfl
  have hclear := clearBit_kept (m := m) dev block
  simp only [wp_bind, wp_get, hsuper, hvol, hcached]
  by_cases hs : m.super dev = false
  · simp [hs]
  rw [if_neg hs, or_iff_right hs]
  by_cases hr : block < (m.vol dev).disk.firstdatazone ∨ (m.vol dev).disk.nzones ≤ block
  · rw [if_pos hr]
    exact iff_of_true rfl (Or.inl hr)
  rw [if_neg hr, or_iff_right hr]
  by_cases hc : m.cached (dev, block) = true
  swap
  · rw [if_neg hc]
    exact iff_of_true (hclear m.begin rfl) (Or.inl (by simpa using hc))
  rw [if_pos hc, or_iff_right (by simp [hc])]
  simp only [wp_bind, wp_getblk, wp_get]
  by_cases hcount : m.count (dev, block) = 0
  · rw [if_neg (by simp [Dirs.hold, hcount])]
    simp only [wp_bind, wp_modify]
    rw [wp_brelse (by simp [Dirs.hold]) (by simp [Dirs.hold])]
    exact iff_of_true (hclear _ (by simp [Dirs.drop, Dirs.hold])) hcount
  · rw [if_pos (by simpa [Dirs.hold] using hcount)]
    refine iff_of_false (fun hkept => ?_) hcount
    have := hkept (dev, block)
    simp [Dirs.hold] at this

/-- **Buffers are released once**: for which directories and zones. Elsewhere a call
touches a buffer that it does not have, or keeps one that nobody will give back. -/
theorem buffers_released (m : Dirs) (dir : Ino) (name : List Byte) (ok : Nat → Nat → Bool)
    (dev block : Nat) :
    (Balanced (findEntry dir name ok) m (fun r => r.2.map Prod.fst) ↔ FindSafe m dir name ok) ∧
    (Balanced (addEntry dir name ok) m (Option.map Prod.fst) ↔ AddSafe m dir name ok) ∧
    (Balanced (emptyDir dir ok) m (fun _ => none) ↔ EmptySafe m dir ok) ∧
    (Balanced (freeBlock dev block) m (fun _ => none) ↔ FreeSafe m dev block) :=
  ⟨find_entry_balanced m dir name ok, add_entry_balanced m dir name ok,
    empty_dir_balanced m dir ok, free_block_balanced m dev block⟩

/-- A directory of three blocks, the second one missing, where block 100 has no
entry in use; and somebody has the buffer of block 100. -/
def holed : Dirs where
  vol _ :=
    { disk := ⟨10, 200, 8192, {0}, fun _ => ⟨iDirectory, fun k => if k = 0 then 100 else 0⟩,
        fun _ _ => 0⟩
      size := fun _ => 3 * FileData.blockSize }
  super    := fun _ => true
  imount   := fun _ => none
  root     := (0x301, 1)
  icount   := fun _ => 1
  cached   := fun _ => true
  uptodate := fun _ => false
  count    := fun bh => if bh = (0x301, 100) then 1 else 0
  held     := fun _ => 0

/-- `find_entry` goes through a null buffer after the hole; a bad directory keeps
its buffer in `empty_dir`, and a busy one is kept by `free_block`. -/
theorem buffers_holed :
    ¬ Balanced (findEntry (0x301, 2) [97] fun _ _ => true) holed (fun r => r.2.map Prod.fst) ∧
    ¬ Balanced (emptyDir (0x301, 2) fun _ _ => true) holed (fun _ => none) ∧
    ¬ Balanced (freeBlock 0x301 100) holed (fun _ => none) := by
  have hload : holed.load (0x301, 2) 0 (fun _ => true) = some (0x301, 100) := rfl
  refine ⟨?_, ?_, ?_⟩
  · rw [find_entry_balanced]
    intro hsafe
    obtain h | h | hwalk := hsafe
    · cases h
    · cases hload.symm.trans h
    · refine hwalk 1 (by decide) (fun j _ hj => ⟨(0x301, 100), ?_, ?_⟩) (by decide) (by decide) rfl
      · rw [Nat.mul_one] at hj
        rw [Nat.div_eq_of_lt hj]
        exact hload
      · simp [Dirs.match, Dirs.deInode, byte, holed]
  · rw [empty_dir_balanced]
    intro hsafe
    obtain h | h := hsafe
    · exact absurd h (by decide)
    · exact absurd (h _ hload).1 (by decide)
  · rw [free_block_balanced]
    simp [FreeSafe, holed]

end Linux011.Fs.Directory
