import Linux011.Mm.Runs

/-!
# Memory manager — copy-on-write is an eager copy

Tasks in their 64 MB slots fork, store bytes and exit. `Machine` runs the
routines of `Mm/Memory.lean`: a store is translated through the page tables,
faults into `get_empty_page` or `do_wp_page` and is restarted. `Ref` is the
machine a programmer imagines: every task has its own pages, fork copies them
at once, nothing is shared.

* `userStore_spec` — after at most one fault the byte is stored, and no cell
  but the one stored to shows anything else than before;
* `sim_step`, `sim_run` — the two machines stay in step, and a run ends out of
  memory only where the free pages did not suffice;
* `cow_eager_copy` — what every task reads is what it reads on `Ref`, so that
  no task can tell that its pages are shared;
* `cow_shows_directory` — but for the page directory, which the first child of
  task 0 has as its page 0: there a fork of its own is seen.

The accessed and dirty bits the processor sets in an entry are read by none of
the routines and are left out.
-/

namespace Linux011.Mm

open Linux011.Lib

/-! ## Bytes -/

abbrev Byte := BitVec 8

/-- A page as bytes. -/
abbrev Page := Fin 4096 → Byte

/-- Byte `k` of a word, the low one first. -/
def getByte (w : Word) (k : Nat) : Byte := w.extractLsb' (8 * k) 8

def setByte (w : Word) (k : Nat) (b : Byte) : Word :=
  (w &&& ~~~(0xff#32 <<< (8 * k))) ||| (b.setWidth 32 <<< (8 * k))

def loadByte (s : Mem) (a : Nat) : Byte := getByte (s.phys (a / 4)) (a % 4)

def storeByte (a : Nat) (b : Byte) : MM Unit := do
  let w ← load (a / 4)
  store (a / 4) (setByte w (a % 4) b)

/-- The words of a page as bytes. -/
def bytesOf (c : Fin 1024 → Word) : Page :=
  fun k => getByte (c ⟨k / 4, by have := k.isLt; omega⟩) (k % 4)

/-- The bits of the byte mask. -/
theorem getLsbD_255 (i : Nat) : (255#32).getLsbD i = decide (i < 8) := by
  have hmask : (255#32 : Word) = (BitVec.allOnes 8).setWidth 32 := by decide
  rw [hmask, BitVec.getLsbD_setWidth, BitVec.getLsbD_allOnes]
  by_cases hi : i < 8
  · simp only [hi, decide_true, Bool.and_true, decide_eq_true_eq]
    omega
  · simp only [hi, decide_false, Bool.and_false]

theorem getByte_setByte (w : Word) {k : Nat} (hk : k < 4) (b : Byte) :
    getByte (setByte w k b) k = b := by
  unfold getByte setByte
  apply BitVec.eq_of_getLsbD_eq
  intro i hi
  have hlt : 8 * k + i < 32 := by omega
  have hge : ¬ 8 * k + i < 8 * k := by omega
  have hi32 : i < 32 := by omega
  simp only [BitVec.getLsbD_extractLsb', BitVec.getLsbD_or, BitVec.getLsbD_and,
    BitVec.getLsbD_not, BitVec.getLsbD_shiftLeft, BitVec.getLsbD_setWidth, getLsbD_255, hi, hlt,
    hge, hi32, Nat.add_sub_cancel_left, decide_true, decide_false, Bool.true_and, Bool.not_true,
    Bool.not_false, Bool.and_false, Bool.false_or]

theorem getByte_setByte_of_ne (w : Word) {k l : Nat} (hl : l < 4) (hne : l ≠ k)
    (b : Byte) : getByte (setByte w k b) l = getByte w l := by
  unfold getByte setByte
  apply BitVec.eq_of_getLsbD_eq
  intro i hi
  have hlt : 8 * l + i < 32 := by omega
  simp only [BitVec.getLsbD_extractLsb', BitVec.getLsbD_or, BitVec.getLsbD_and,
    BitVec.getLsbD_not, BitVec.getLsbD_shiftLeft, BitVec.getLsbD_setWidth, getLsbD_255, hi, hlt,
    decide_true, Bool.true_and]
  rcases Nat.lt_or_gt_of_ne hne with h | h
  · have hc : 8 * l + i < 8 * k := by omega
    simp [hc]
  · -- above the byte the mask and the new byte have no bits
    have h8 : ¬ 8 * l + i - 8 * k < 8 := by omega
    have hb : b.getLsbD (8 * l + i - 8 * k) = false := BitVec.getLsbD_of_ge b _ (by omega)
    simp [h8, hb]

/-- The bytes of a word put together from four. -/
theorem getByte_bytes (f : Nat → Byte) {i : Nat} (hi : i < 4) :
    getByte (f 3 ++ f 2 ++ f 1 ++ f 0) i = f i := by
  unfold getByte
  apply BitVec.eq_of_getLsbD_eq
  intro b hb
  simp only [BitVec.getLsbD_extractLsb', BitVec.getLsbD_append, hb, decide_true, Bool.true_and]
  obtain rfl | rfl | rfl | rfl : i = 0 ∨ i = 1 ∨ i = 2 ∨ i = 3 := by omega
  · simp [hb]
  · have h1 : ¬ 8 * 1 + b < 8 := by omega
    have h2 : 8 * 1 + b - 8 = b := by omega
    simp [h1, h2, hb]
  · have h1 : ¬ 8 * 2 + b < 8 := by omega
    have h2 : ¬ 8 * 2 + b - 8 < 8 := by omega
    have h3 : 8 * 2 + b - 8 - 8 = b := by omega
    simp [h1, h2, h3, hb]
  · have h1 : ¬ 8 * 3 + b < 8 := by omega
    have h2 : ¬ 8 * 3 + b - 8 < 8 := by omega
    have h3 : ¬ 8 * 3 + b - 8 - 8 < 8 := by omega
    have h4 : 8 * 3 + b - 8 - 8 - 8 = b := by omega
    simp [h1, h2, h3, h4]

/-! ## Translation and the store instruction -/

/-- The page faults of the processor. -/
inductive Fault
  | notPresent
  | writeProtect
  deriving DecidableEq, Repr

/-- The physical byte a linear address stands for. -/
def translate (s : Mem) (address : Nat) (write : Bool) : Except Fault Nat :=
  let d := s.phys (dirEntry address)
  if present d then
    let w := s.phys (pageAddr d / 4 + tableIndex address)
    if present w then
      if write && !writable w then .error .writeProtect
      else .ok (pageAddr w + address % 4096)
    else .error .notPresent
  else .error .notPresent

/-- `page_fault` of `mm/page.s`: `do_no_page` where there is no page to load
from a file, and `do_wp_page`. -/
def pageFault (cur : Ldt) (address : Nat) : Fault → MM Unit
  | .notPresent => getEmptyPage cur (address &&& 0xfffff000)
  | .writeProtect => doWpPage cur address

/-- A store in user mode: a fault is served and the instruction restarted.
`false` means that it faulted again. -/
def userStore (cur : Ldt) (address : Nat) (b : Byte) : MM Bool := do
  match translate (← get) address true with
  | .ok a =>
    storeByte a b
    return true
  | .error f =>
    pageFault cur address f
    match translate (← get) address true with
    | .ok a =>
      storeByte a b
      return true
    | .error _ => return false

/-! ## The machine -/

/-- Memory and the segments of the tasks in the slots 1..63. -/
structure Machine where
  mem   : Mem
  tasks : Nat → Option Ldt

inductive Op
  | fork (parent child : Nat)
  | store (slot offset : Nat) (b : Byte)
  | exit (slot : Nat)

/-- How a step ends. -/
inductive Outcome
  | done (m : Machine)
  | noMemory
  | panicked (p : Panic)
  | refaulted

/-- A routine of the memory manager, run for the machine. -/
def Outcome.of {α : Type} (x : MM α) (s : Mem) (next : α → Mem → Outcome) : Outcome :=
  match x.run s with
  | .ok a s => next a s
  | .error (.panic p) _ => .panicked p
  | .error .exit _ => .noMemory

/-- One operation. A slot that is not in use does nothing, a fork goes into a
free slot, a store stays within the segment. -/
def Machine.step (m : Machine) : Op → Outcome
  | .fork parent child =>
    match m.tasks parent, m.tasks child with
    | some cur, none =>
      if 1 ≤ child ∧ child < 64 then
        .of (copyMem child cur) m.mem fun r s =>
          if r.1 = 0 then .done ⟨s, Function.update m.tasks child (some r.2)⟩ else .noMemory
      else .done m
    | _, _ => .done m
  | .store slot offset b =>
    match m.tasks slot with
    | some cur =>
      if offset < cur.dataLimit then
        .of (userStore cur (cur.dataBase + offset) b) m.mem fun ok s =>
          if ok then .done ⟨s, m.tasks⟩ else .refaulted
      else .done m
    | none => .done m
  | .exit slot =>
    match m.tasks slot with
    | some cur =>
      .of (exitMm cur) m.mem fun _ s => .done ⟨s, Function.update m.tasks slot none⟩
    | none => .done m

/-- A run; it ends where a step does not go on. -/
def Machine.run (m : Machine) : List Op → Outcome
  | [] => .done m
  | op :: ops =>
    match m.step op with
    | .done m' => m'.run ops
    | o => o

/-- The byte a task reads at an offset of its segment. -/
def Machine.read (m : Machine) (slot offset : Nat) : Option Byte :=
  match translate m.mem (slot * 0x4000000 + offset) false with
  | .ok a => some (loadByte m.mem a)
  | .error _ => none

/-! ## The reference machine -/

/-- Every task with pages of its own. `origin` remembers from which slot of the
start a task has them, through all its forks. -/
structure Ref where
  tasks  : Nat → Option Ldt
  pages  : Nat → Nat → Option Page
  origin : Nat → Nat

def Ref.step (r : Ref) : Op → Ref
  | .fork parent child =>
    match r.tasks parent, r.tasks child with
    | some cur, none =>
      if 1 ≤ child ∧ child < 64 then
        { tasks := Function.update r.tasks child (some (cur.child child))
          pages := Function.update r.pages child (r.pages parent)
          origin := Function.update r.origin child (r.origin parent) }
      else r
    | _, _ => r
  | .store slot offset b =>
    match r.tasks slot with
    | some cur =>
      if offset < cur.dataLimit then
        let page := (r.pages slot (offset / 4096)).getD fun _ => 0#8
        let page' := Function.update page (Fin.ofNat 4096 offset) b
        let pages := Function.update (r.pages slot) (offset / 4096) (some page')
        { r with pages := Function.update r.pages slot pages }
      else r
    | none => r
  | .exit slot =>
    match r.tasks slot with
    | some _ =>
      { r with
        tasks := Function.update r.tasks slot none
        pages := Function.update r.pages slot fun _ => none }
    | none => r

def Ref.run (r : Ref) (ops : List Op) : Ref := ops.foldl Ref.step r

def Ref.read (r : Ref) (slot offset : Nat) : Option Byte :=
  (r.pages slot (offset / 4096)).map fun page => page (Fin.ofNat 4096 offset)

/-- The page-table entry of page `p` of a slot. -/
def cell (slot p : Nat) : Nat × Nat := (16 * slot + p / 1024, p % 1024)

/-- The reference machine that starts with the pages of `m`. -/
def Ref.of (m : Machine) : Ref where
  tasks := m.tasks
  pages := fun slot p => (mapOf m.mem (cell slot p)).map fun e => bytesOf (contents m.mem e.1)
  origin := id

variable {lo hi : Nat} {s : Mem} {held : Nat → Nat}

/-! ## Addresses -/

/-- An address of a task slot, as cell and offset in the page. -/
theorem slot_address {slot off : Nat} (hs : slot < 64) (ho : off < 0x4000000) :
    dirEntry (slot * 0x4000000 + off) = (cell slot (off / 4096)).1 ∧
      tableIndex (slot * 0x4000000 + off) = (cell slot (off / 4096)).2 ∧
      (slot * 0x4000000 + off) % 4096 = off % 4096 := by
  rw [dirEntry_eq, tableIndex_eq]
  unfold cell
  dsimp only
  omega

/-- `address &= 0xfffff000` keeps the entry. -/
theorem page_of_address {address : Nat} (h : address < 0x100000000) :
    dirEntry (address &&& 0xfffff000) = dirEntry address ∧
      tableIndex (address &&& 0xfffff000) = tableIndex address := by
  have hw : (BitVec.ofNat 32 address : Word).toNat = address := by
    rw [BitVec.toNat_ofNat]
    exact Nat.mod_eq_of_lt h
  have hp := pageAddr_eq (BitVec.ofNat 32 address)
  unfold pageAddr frameOf at hp
  rw [BitVec.toNat_and, hw] at hp
  have hc : (0xfffff000#32 : Word).toNat = 0xfffff000 := rfl
  rw [hc] at hp
  rw [hp, dirEntry_eq, dirEntry_eq, tableIndex_eq, tableIndex_eq]
  omega

/-- What the processor finds is what the tables say. -/
theorem translate_eq {address : Nat} (hd : dirEntry address ∈ dirs) (write : Bool) :
    translate s address write =
      match mapOf s (dirEntry address, tableIndex address) with
      | none => .error .notPresent
      | some (f, w) => if write && !w then .error .writeProtect else .ok (f * 4096 + address % 4096) := by
  unfold translate
  dsimp only
  by_cases hp : present (s.phys (dirEntry address)) = true
  · have ht : tblOf s (dirEntry address) = some (frameOf (s.phys (dirEntry address))) :=
      tblOf_eq_some.mpr ⟨hd, hp, rfl⟩
    have htable := pageAddr_div (s.phys (dirEntry address))
    rw [if_pos hp, htable, mapOf_of_tbl ht (tableIndex_lt address)]
    generalize s.phys (frameOf (s.phys (dirEntry address)) * 1024 + tableIndex address) = w
    unfold entryOf
    by_cases hpw : present w = true
    · rw [if_pos hpw, if_pos hpw, pageAddr_eq]
    · rw [if_neg hpw, if_neg hpw]
  · have ht : tblOf s (dirEntry address) = none := (tblOf_eq_none hd).mpr (by simpa using hp)
    rw [if_neg hp, mapOf_eq_none_of_tbl ht]

/-! ## The store instruction -/

/-- The contents of a frame after one byte was stored into it. -/
theorem bytesOf_store {f o : Nat} (ho : o < 4096) (b : Byte) {s' : Mem}
    (h : s'.phys = Function.update s.phys ((f * 4096 + o) / 4)
      (setByte (s.phys ((f * 4096 + o) / 4)) ((f * 4096 + o) % 4) b)) :
    bytesOf (contents s' f) = Function.update (bytesOf (contents s f)) ⟨o, ho⟩ b := by
  funext k
  obtain ⟨k, hk⟩ := k
  have haddr : (f * 4096 + o) / 4 = f * 1024 + o / 4 := by omega
  have hlane : (f * 4096 + o) % 4 = o % 4 := by omega
  unfold bytesOf contents
  dsimp only
  rw [h, haddr, hlane]
  by_cases hko : k = o
  · subst hko
    rw [Function.update_self, Function.update_self, getByte_setByte _ (by omega)]
  · have hne : (⟨k, hk⟩ : Fin 4096) ≠ ⟨o, ho⟩ := fun h => hko (congrArg Fin.val h)
    rw [Function.update_of_ne hne]
    by_cases hword : k / 4 = o / 4
    · rw [hword, Function.update_self, getByte_setByte_of_ne _ (by omega) (by omega)]
    · rw [Function.update_of_ne (by omega)]

/-- A store through a writable entry changes what that one cell shows. -/
theorem storeByte_spec (A : Acc lo hi s held) {x : Nat × Nat} {f o : Nat}
    (hm : mapOf s x = some (f, true)) (ho : o < 4096) (b : Byte) :
    wp (storeByte (f * 4096 + o) b) (fun _ s' =>
      Acc lo hi s' held ∧ tblOf s' = tblOf s ∧ mapOf s' = mapOf s ∧
        (∀ y, y ≠ x → shows s' y = shows s y) ∧
        bytesOf (contents s' f) = Function.update (bytesOf (contents s f)) ⟨o, ho⟩ b)
      (fun _ _ => False) s := by
  unfold storeByte
  simp only [wp_bind, wp_load, wp_store]
  have haddr : (f * 4096 + o) / 4 = f * 1024 + o / 4 := by omega
  obtain ⟨A', hof, htbl, hmap⟩ := acc_data A
    (setByte (s.phys (f * 1024 + o / 4)) ((f * 4096 + o) % 4) b)
    (show o / 4 < 1024 by omega) (Or.inr ⟨x, hm⟩)
  rw [← haddr] at A' hof htbl hmap
  refine ⟨A', htbl, hmap, ?_, bytesOf_store ho b rfl⟩
  intro y hy
  refine shows_congr (congrFun hmap y) ?_
  -- no other cell maps the frame
  refine views_eq_of_frame hof (congrFun hmap y) ?_
  intro w hmy
  exact absurd (A.inv.writable_sole (mem_cells_of_mapOf hm) (mem_cells_of_mapOf hmy) hm hmy).symm hy

/-- The bytes of the page a cell maps; a page not there yet is zero. -/
def pageAt (s : Mem) (x : Nat × Nat) : Page :=
  match mapOf s x with
  | some (f, _) => bytesOf (contents s f)
  | none => fun _ => 0#8

/-- What a store into cell `x` leaves behind: one byte of its page changed. -/
structure Stored (s : Mem) (x : Nat × Nat) (o : Nat) (b : Byte) (s' : Mem) : Prop where
  tbl   : ∀ d, d ≠ x.1 → tblOf s' d = tblOf s d
  cells : ∀ y, y ≠ x → shows s' y = shows s y
  page  : ∃ f, f ≠ 0 ∧ (mapOf s' x).map Prod.fst = some f ∧
    bytesOf (contents s' f) = Function.update (pageAt s x) (Fin.ofNat 4096 o) b

/-- The store of a byte once the entry may be written. -/
theorem storeByte_stored (A : Acc lo hi s held) {x : Nat × Nat} {f o : Nat} (b : Byte)
    (hm : mapOf s x = some (f, true)) :
    wp (storeByte (f * 4096 + o % 4096) b) (fun _ s' => Acc lo hi s' held ∧ Stored s x o b s')
      (fun _ _ => False) s := by
  have hlow := A.low
  obtain ⟨hlo, -, -⟩ := A.inv.writable x (mem_cells_of_mapOf hm) f hm
  refine wp_mono (storeByte_spec A hm (Nat.mod_lt o (by omega)) b) ?_ (fun _ _ h => h)
  rintro _ s' ⟨A', htbl, hmap, hcells, hbytes⟩
  refine ⟨A', fun d _ => by rw [htbl], hcells, f, by omega, ?_, ?_⟩
  · rw [hmap, hm]
    rfl
  · have hpage : pageAt s x = bytesOf (contents s f) := by
      unfold pageAt
      rw [hm]
    rw [hbytes, hpage]
    rfl

/-- **A user store** into a task slot succeeds after at most one fault. It
stores its byte and changes nothing any other cell shows; or the task had to
leave for want of a page, with at most one page free. -/
theorem userStore_spec (A : Acc lo hi s held) {cur : Ldt} {slot off : Nat}
    (hcur : cur.InSlot slot) (hslot : 1 ≤ slot) (ho : off < cur.dataLimit) (b : Byte) :
    wp (userStore cur (cur.dataBase + off) b) (fun ok s' =>
      ok = true ∧ Acc lo hi s' held ∧ Stored s (cell slot (off / 4096)) off b s')
      (fun e _ => e = .exit ∧ freeFrames lo hi s < 2) s := by
  have hoff : off < 0x4000000 := Nat.lt_of_lt_of_le ho hcur.top
  obtain ⟨hdir, htab, hmod⟩ := slot_address hcur.slot_lt hoff
  have hmem : (cell slot (off / 4096)).1 ∈ dirs := by
    have := hcur.slot_lt
    exact mem_dirs.mpr (by unfold cell; dsimp only; omega)
  have hlt : cur.dataBase + off < 0x100000000 := by
    have := hcur.slot_lt
    rw [hcur.data]
    omega
  rw [hcur.data] at hlt ⊢
  obtain ⟨hpd, hpt⟩ := page_of_address hlt
  generalize slot * 0x4000000 + off = address at *
  generalize cell slot (off / 4096) = x at *
  obtain ⟨d, j⟩ := x
  dsimp only at hdir htab hmem
  have hd : dirEntry address ∈ dirs := by rw [hdir]; exact hmem
  -- the second attempt, in a state whose entry may be written
  have hretry : ∀ s1, Acc lo hi s1 held → (∃ f, mapOf s1 (d, j) = some (f, true)) →
      (∀ e, e ≠ d → tblOf s1 e = tblOf s e) → (∀ y, y ≠ (d, j) → shows s1 y = shows s y) →
      pageAt s1 (d, j) = pageAt s (d, j) →
      wp (do
        match translate (← get) address true with
        | .ok a =>
          storeByte a b
          return true
        | .error _ => return false) (fun ok s' =>
        ok = true ∧ Acc lo hi s' held ∧ Stored s (d, j) off b s')
        (fun e _ => e = .exit ∧ freeFrames lo hi s < 2) s1 := by
    rintro s1 A1 ⟨f, hm1⟩ htbl1 hcells1 hpage1
    rw [wp_bind, wp_get, translate_eq hd, hdir, htab, hm1, hmod]
    simp only [Bool.not_true, Bool.and_false, Bool.false_eq_true, if_false, wp_bind, wp_pure]
    refine wp_mono (storeByte_stored A1 (o := off) b hm1) ?_ (fun _ _ h => h.elim)
    rintro _ s2 ⟨A2, hst⟩
    refine ⟨trivial, A2, ?_, ?_, ?_⟩
    · intro e he
      rw [hst.tbl e he, htbl1 e he]
    · intro y hy
      rw [hst.cells y hy, hcells1 y hy]
    · rw [← hpage1]
      exact hst.page
  unfold userStore
  rw [wp_bind, wp_get, translate_eq hd, hdir, htab]
  cases hm : mapOf s (d, j) with
  | none =>
    -- not present: a zeroed page is put there
    simp only [wp_bind]
    unfold pageFault
    have hd' : dirEntry (address &&& 0xfffff000) ∈ dirs := by rw [hpd]; exact hd
    have hget := getEmptyPage_spec A hcur hslot hd' (by rw [hpd, hpt, hdir, htab]; exact hm)
    rw [hpd, hpt, hdir, htab] at hget
    refine wp_mono hget ?_ (fun _ _ h => ⟨h.1, h.2.2⟩)
    rintro _ s1 ⟨A1, htbl1, ⟨f, hf, hm1⟩, hview1, hcells1⟩
    refine hretry s1 A1 ⟨f, hm1⟩ htbl1 hcells1 ?_
    have hzero : contents s1 f = fun _ => 0#32 := by
      have h : views s1 (d, j) = some (contents s1 f) := by
        unfold views
        rw [hm1]
        exact if_pos (by omega)
      rw [h] at hview1
      exact Option.some.inj hview1
    unfold pageAt
    rw [hm, hm1]
    dsimp only
    rw [hzero]
    funext k
    show getByte 0#32 _ = 0#8
    unfold getByte
    simp
  | some e =>
    obtain ⟨g, w⟩ := e
    cases w with
    | true =>
      simp only [Bool.not_true, Bool.and_false, Bool.false_eq_true, if_false]
      rw [hmod, wp_bind]
      refine wp_mono (storeByte_stored A (o := off) b hm) ?_ (fun _ _ h => h.elim)
      rintro _ s2 ⟨A2, hst⟩
      exact ⟨rfl, A2, hst⟩
    | false =>
      -- read-only: the page is copied or its only user gets it
      simp only [Bool.not_false, Bool.and_true, if_true, wp_bind]
      unfold pageFault
      have hma : mapOf s (dirEntry address, tableIndex address) = some (g, false) := by
        rw [hdir, htab]
        exact hm
      have hwp := doWpPage_spec A hcur hslot hma
      rw [hdir, htab] at hwp
      refine wp_mono hwp ?_ (fun _ _ h => ⟨h.1, h.2.2⟩)
      rintro _ s1 ⟨A1, hun⟩
      obtain ⟨f, hf, hm1⟩ := hun.entry
      refine hretry s1 A1 ⟨f, hm1⟩ (fun e _ => by rw [hun.tbl]) hun.cells ?_
      have hcopy : contents s1 f = contents s g := by
        have h : views s1 (d, j) = some (contents s1 f) := by
          unfold views
          rw [hm1]
          exact if_pos (by omega)
        rw [hun.view] at h
        exact (Option.some.inj h).symm
      unfold pageAt
      rw [hm, hm1]
      dsimp only
      rw [hcopy]

/-! ## The simulation -/

/-- A machine in order: the accounts are kept, each task has segments in its
own slot, and a slot has page tables only within the limit of its task. -/
structure Machine.Ok (lo hi : Nat) (held : Nat → Nat) (m : Machine) : Prop where
  acc    : Acc lo hi m.mem held
  live   : ∀ slot cur, m.tasks slot = some cur → 1 ≤ slot ∧ cur.InSlot slot
  within : ∀ d, tblOf m.mem d ≠ none →
    ∃ cur, m.tasks (d / 16) = some cur ∧ d < 16 * (d / 16) + tables cur.dataLimit

/-- The two machines agree on the pages in `clean`, named by the slot a task has
them from and their number. -/
structure Sim (lo hi : Nat) (held : Nat → Nat) (clean : Nat → Nat → Prop) (m : Machine)
    (r : Ref) : Prop where
  ok    : m.Ok lo hi held
  tasks : r.tasks = m.tasks
  pages : ∀ slot cur p, m.tasks slot = some cur → p < 16384 → clean (r.origin slot) p →
    (shows m.mem (cell slot p)).1 ≠ some 0 ∧
      (shows m.mem (cell slot p)).2.map bytesOf = r.pages slot p

variable {clean : Nat → Nat → Prop} {m : Machine} {r : Ref}

theorem cell_slot {slot p : Nat} (hp : p < 16384) : (cell slot p).1 / 16 = slot := by
  unfold cell
  dsimp only
  omega

theorem cell_inj {slot p q : Nat} (h : cell slot p = cell slot q) : p = q := by
  have h1 := congrArg Prod.fst h
  have h2 := congrArg Prod.snd h
  unfold cell at h1 h2
  dsimp only at h1 h2
  omega

/-- A slot without a task has no page table. -/
theorem Machine.Ok.free_slot (ok : m.Ok lo hi held) {slot : Nat} (h : m.tasks slot = none) {d : Nat}
    (hd : d / 16 = slot) : tblOf m.mem d = none := by
  by_contra hne
  obtain ⟨cur, hcur, -⟩ := ok.within d hne
  rw [hd, h] at hcur
  cases hcur

/-- Above the limit of its task a slot has no page table. -/
theorem Machine.Ok.above (ok : m.Ok lo hi held) {slot d : Nat} {cur : Ldt}
    (h : m.tasks slot = some cur) (hd : d / 16 = slot)
    (hge : 16 * slot + tables cur.dataLimit ≤ d) : tblOf m.mem d = none := by
  by_contra hne
  obtain ⟨cur', hcur', hlt⟩ := ok.within d hne
  rw [hd, h] at hcur'
  cases hcur'
  rw [hd] at hlt
  omega

/-- **Fork** keeps the machines in step, and fails only with fewer than 16 pages
free. -/
theorem sim_fork (S : Sim lo hi held clean m r) {parent child : Nat} {cur : Ldt}
    (hp : m.tasks parent = some cur) (hc : m.tasks child = none) (hc1 : 1 ≤ child)
    (hc2 : child < 64) :
    wp (copyMem child cur) (fun q s' =>
      (q.1 = 0 →
        Sim lo hi held clean ⟨s', Function.update m.tasks child (some q.2)⟩
          ⟨Function.update r.tasks child (some (cur.child child)),
            Function.update r.pages child (r.pages parent),
            Function.update r.origin child (r.origin parent)⟩ ∧
        freeFrames lo hi m.mem ≤ freeFrames lo hi s' + 16) ∧
      (q.1 ≠ 0 → freeFrames lo hi m.mem < 16))
      (fun _ _ => False) m.mem := by
  obtain ⟨hp1, hin⟩ := S.ok.live parent cur hp
  have hne : child ≠ parent := by
    rintro rfl
    rw [hp] at hc
    cases hc
  have hle := tables_le_slot hin.top
  refine wp_mono (copyMem_spec S.ok.acc hin hp1 hc1 hc2 hne) ?_ ?_
  · rintro ⟨q, ldt⟩ s' ⟨A', hldt, ⟨hout, hcopy⟩, hfew⟩
    dsimp only at hldt hcopy hfew ⊢
    refine ⟨fun hq => ?_, fun hq => Nat.lt_of_lt_of_le (hfew hq) hle⟩
    subst hldt
    obtain ⟨-, hcopy⟩ : q = 0 ∧ ∀ k < tables cur.dataLimit, ∀ j,
        shows s' (16 * child + k, j) = shows m.mem (16 * parent + k, j) := by
      rcases hcopy with h | ⟨h, -⟩
      · exact h
      · omega
    have hchild : ∀ d, d / 16 = child → tblOf m.mem d = none := fun d => S.ok.free_slot hc
    -- the child's pages are the parent's
    have hsame : ∀ p, p < 16384 → shows s' (cell child p) = shows m.mem (cell parent p) := by
      intro p hp'
      by_cases hk : p / 1024 < tables cur.dataLimit
      · exact hcopy _ hk _
      · have h1 : shows s' (cell child p) = shows m.mem (cell child p) := by
          refine hout.cells _ (Or.inr ?_)
          unfold cell
          dsimp only
          omega
        rw [h1]
        unfold cell
        rw [shows_of_tbl_none (hchild _ (by omega)),
          shows_of_tbl_none (S.ok.above hp (by omega) (by omega))]
    -- no other task's pages changed
    have hother : ∀ slot p, slot ≠ child → p < 16384 →
        shows s' (cell slot p) = shows m.mem (cell slot p) := by
      intro slot p hs hp'
      refine hout.cells _ ?_
      unfold cell
      dsimp only
      omega
    refine ⟨⟨⟨A', ?_, ?_⟩, ?_, ?_⟩, ?_⟩
    · intro slot cur' hcur'
      dsimp only at hcur'
      rw [Function.update_apply] at hcur'
      split at hcur'
      · next h =>
        cases hcur'
        subst h
        exact ⟨hc1, hin.child hc1 hc2⟩
      · exact S.ok.live slot cur' hcur'
    · intro d hd
      dsimp only at hd ⊢
      by_cases hdc : d / 16 = child
      · rw [hdc, Function.update_self]
        refine ⟨_, rfl, ?_⟩
        show d < 16 * child + tables cur.dataLimit
        by_contra hge
        rw [hout.tbl d (by omega), hchild d hdc] at hd
        exact hd rfl
      · rw [Function.update_of_ne hdc]
        rw [hout.tbl d (by omega)] at hd
        exact S.ok.within d hd
    · show Function.update r.tasks child _ = Function.update m.tasks child _
      rw [S.tasks]
    · intro slot cur' p hcur' hp' hclean
      dsimp only at hcur' hclean ⊢
      by_cases hs : slot = child
      · subst hs
        rw [Function.update_self] at hclean
        rw [hsame p hp', Function.update_self]
        exact S.pages parent cur p hp hp' hclean
      · rw [Function.update_of_ne hs] at hcur' hclean
        rw [hother slot p hs hp', Function.update_of_ne hs]
        exact S.pages slot cur' p hcur' hp' hclean
    · -- at most the new page tables are gone
      let N := (Finset.range 16).image fun k => (tblOf s' (16 * child + k)).getD 0
      refine Nat.le_trans (S.ok.acc.freeFrames_le A' N ?_ ?_) (Nat.add_le_add_left ?_ _)
      · intro d f hd hf
        by_cases hdc : d / 16 = child
        · refine absurd (Finset.mem_image.mpr ⟨d - 16 * child, Finset.mem_range.mpr (by omega), ?_⟩) hf
          rw [show 16 * child + (d - 16 * child) = d by omega, hd]
          rfl
        · rwa [hout.tbl d (by omega)] at hd
      · intro x f hx _
        by_cases hxc : 16 * child ≤ x.1 ∧ x.1 < 16 * child + tables cur.dataLimit
        · have h := congrArg Prod.fst (hcopy (x.1 - 16 * child) (by omega) x.2)
          rw [show 16 * child + (x.1 - 16 * child) = x.1 by omega] at h
          exact ⟨_, h.symm.trans hx⟩
        · have h := congrArg Prod.fst (hout.cells x (by omega))
          exact ⟨x, h.symm.trans hx⟩
      · exact Nat.le_trans Finset.card_image_le (by simp)
  · rintro _ _ ⟨-, k, hk, hne'⟩
    exact hne' (S.ok.free_slot hc (by omega))

/-- **A store** keeps the machines in step, and kills its task only with less than
two pages free. -/
theorem sim_store (S : Sim lo hi held clean m r) {slot off : Nat} {cur : Ldt} (b : Byte)
    (hs : m.tasks slot = some cur) (ho : off < cur.dataLimit) :
    wp (userStore cur (cur.dataBase + off) b) (fun ok s' => ok = true ∧
      Sim lo hi held clean ⟨s', m.tasks⟩
        ⟨r.tasks, Function.update r.pages slot (Function.update (r.pages slot) (off / 4096)
          (some (Function.update ((r.pages slot (off / 4096)).getD fun _ => 0#8)
            (Fin.ofNat 4096 off) b))), r.origin⟩ ∧
      freeFrames lo hi m.mem ≤ freeFrames lo hi s' + 2)
      (fun e _ => e = .exit ∧ freeFrames lo hi m.mem < 2) m.mem := by
  obtain ⟨hs1, hin⟩ := S.ok.live slot cur hs
  have htop := hin.top
  refine wp_mono (userStore_spec S.ok.acc hin hs1 ho b) ?_ (fun _ _ h => h)
  rintro ok s' ⟨hok, A', hst⟩
  refine ⟨hok, ⟨⟨A', S.ok.live, ?_⟩, S.tasks, ?_⟩, ?_⟩
  · intro d hd
    dsimp only at hd ⊢
    by_cases hd1 : d = (cell slot (off / 4096)).1
    · rw [hd1, cell_slot (by omega)]
      refine ⟨cur, hs, ?_⟩
      unfold cell tables
      dsimp only
      omega
    · rw [hst.tbl d hd1] at hd
      exact S.ok.within d hd
  · intro slot' cur' p hcur' hp' hclean
    dsimp only at hcur' ⊢
    have hold := S.pages slot' cur' p hcur' hp' hclean
    by_cases hcell : cell slot' p = cell slot (off / 4096)
    · -- the page stored to
      have hslot : slot' = slot := by
        have h : (cell slot' p).1 / 16 = (cell slot (off / 4096)).1 / 16 := by rw [hcell]
        rwa [cell_slot hp', cell_slot (by omega)] at h
      subst hslot
      have hpo := cell_inj hcell
      subst hpo
      obtain ⟨f, hf, hmap, hbytes⟩ := hst.page
      rw [Function.update_self, Function.update_self]
      have hview : views s' (cell slot' (off / 4096)) = some (contents s' f) := by
        unfold views
        obtain ⟨⟨f', w⟩, hm, rfl⟩ := Option.map_eq_some_iff.mp hmap
        rw [hm]
        exact if_pos hf
      -- what the page held before is what the reference has
      have hpage : pageAt m.mem (cell slot' (off / 4096)) =
          (r.pages slot' (off / 4096)).getD fun _ => 0#8 := by
        rw [← hold.2]
        have hne := hold.1
        unfold shows at hne ⊢
        unfold pageAt views
        dsimp only at hne ⊢
        cases hm : mapOf m.mem (cell slot' (off / 4096)) with
        | none => rfl
        | some e =>
          obtain ⟨g, w⟩ := e
          rw [hm] at hne
          have hg : g ≠ 0 := fun h => hne (by rw [h]; rfl)
          simp only [pageView, if_pos hg, Option.map_some, Option.getD_some]
      unfold shows
      rw [hmap, hview]
      refine ⟨fun h => hf (Option.some.inj h), ?_⟩
      rw [Option.map_some, hbytes, hpage]
    · rw [hst.cells _ hcell]
      refine ⟨hold.1, hold.2.trans ?_⟩
      by_cases hslot : slot' = slot
      · subst hslot
        have hpo : p ≠ off / 4096 := fun h => hcell (by rw [h])
        rw [Function.update_self, Function.update_of_ne hpo]
      · rw [Function.update_of_ne hslot]
  · -- at most the page stored to and its page table are gone
    obtain ⟨g, -, hg, -⟩ := hst.page
    let N : Finset Nat := {g, (tblOf s' (cell slot (off / 4096)).1).getD 0}
    refine Nat.le_trans (S.ok.acc.freeFrames_le A' N ?_ ?_) (Nat.add_le_add_left Finset.card_le_two _)
    · intro d f hd hf
      by_cases hdx : d = (cell slot (off / 4096)).1
      · refine absurd (Finset.mem_insert_of_mem (Finset.mem_singleton.mpr ?_)) hf
        rw [← hdx, hd]
        rfl
      · rwa [hst.tbl d hdx] at hd
    · intro x f hx hf
      by_cases hxc : x = cell slot (off / 4096)
      · refine absurd (Finset.mem_insert.mpr (Or.inl ?_)) hf
        rw [hxc, hg] at hx
        exact (Option.some.inj hx).symm
      · have h := congrArg Prod.fst (hst.cells x hxc)
        exact ⟨x, h.symm.trans hx⟩

/-- **Exit** keeps the machines in step. -/
theorem sim_exit (S : Sim lo hi held clean m r) {slot : Nat} {cur : Ldt}
    (hs : m.tasks slot = some cur) :
    wp (exitMm cur) (fun _ s' =>
      Sim lo hi held clean ⟨s', Function.update m.tasks slot none⟩
        ⟨Function.update r.tasks slot none, Function.update r.pages slot fun _ => none,
          r.origin⟩ ∧
      freeFrames lo hi m.mem ≤ freeFrames lo hi s')
      (fun _ _ => False) m.mem := by
  obtain ⟨hs1, hin⟩ := S.ok.live slot cur hs
  have hle := tables_le_slot hin.top
  refine wp_mono (exitMm_spec S.ok.acc hin hs1) ?_ (fun _ _ h => h)
  rintro _ s' ⟨A', hout, hgone⟩
  have hgone' : ∀ d, d / 16 = slot → tblOf s' d = none := by
    intro d hd
    by_cases hlim : d < 16 * slot + tables cur.dataLimit
    · exact hgone d (by omega) hlim
    · rw [hout.tbl d (by omega)]
      exact S.ok.above hs hd (by omega)
  refine ⟨⟨⟨A', ?_, ?_⟩, ?_, ?_⟩, ?_⟩
  · intro slot' cur' hcur'
    dsimp only at hcur'
    rw [Function.update_apply] at hcur'
    split at hcur'
    · cases hcur'
    · exact S.ok.live slot' cur' hcur'
  · intro d hd
    dsimp only at hd ⊢
    by_cases hds : d / 16 = slot
    · exact absurd (hgone' d hds) hd
    · rw [Function.update_of_ne hds]
      rw [hout.tbl d (by omega)] at hd
      exact S.ok.within d hd
  · show Function.update r.tasks slot none = Function.update m.tasks slot none
    rw [S.tasks]
  · intro slot' cur' p hcur' hp' hclean
    dsimp only at hcur' ⊢
    by_cases hss : slot' = slot
    · rw [hss, Function.update_self] at hcur'
      cases hcur'
    · rw [Function.update_of_ne hss] at hcur'
      have hsame : shows s' (cell slot' p) = shows m.mem (cell slot' p) := by
        refine hout.cells _ ?_
        unfold cell
        dsimp only
        omega
      rw [hsame, Function.update_of_ne hss]
      exact S.pages slot' cur' p hcur' hp' hclean
  · -- nothing is used that was free
    refine S.ok.acc.freeFrames_le A' ∅ ?_ ?_
    · intro d f hd _
      have hds : d / 16 ≠ slot := by
        intro hds
        rw [hgone' d hds] at hd
        cases hd
      rwa [hout.tbl d (by omega)] at hd
    · intro x f hx _
      have hxs : x.1 / 16 ≠ slot := by
        intro hxs
        rw [← Prod.eta x, mapOf_eq_none_of_tbl (hgone' x.1 hxs)] at hx
        cases hx
      have h := congrArg Prod.fst (hout.cells x (by omega))
      exact ⟨x, h.symm.trans hx⟩

/-- How a step or a run may end: in step with the reference and with `left` pages
free, or out of memory where `few` is so. -/
def Outcome.Agrees (lo hi : Nat) (held : Nat → Nat) (clean : Nat → Nat → Prop) (r : Ref) (few : Prop)
    (left : Nat) : Outcome → Prop
  | .done m => Sim lo hi held clean m r ∧ left ≤ freeFrames lo hi m.mem
  | .noMemory => few
  | .panicked _ => False
  | .refaulted => False

/-- A routine whose specification leaves only `oom` as a stop. -/
theorem agrees_of {α : Type} {x : MM α} {next : α → Mem → Outcome} {s : Mem} {few : Prop} {left : Nat}
    (h : wp x (fun a s' => (next a s').Agrees lo hi held clean r few left)
      (fun e _ => e = .exit ∧ few) s) :
    (Outcome.of x s next).Agrees lo hi held clean r few left := by
  unfold wp at h
  unfold Outcome.of EStateM.run
  cases hx : x s with
  | ok a s' =>
    rw [hx] at h
    exact h
  | error e s' =>
    rw [hx] at h
    obtain ⟨rfl, hfew⟩ : e = .exit ∧ few := h
    exact hfew

/-- The pages an operation may need: the page tables of a slot, or a page with its
page table. -/
def Op.pages : Op → Nat
  | .fork _ _ => 16
  | .store _ _ _ => 2
  | .exit _ => 0

/-- One operation keeps the machines in step. -/
theorem sim_step (S : Sim lo hi held clean m r) (op : Op) :
    (m.step op).Agrees lo hi held clean (r.step op) (freeFrames lo hi m.mem < op.pages)
      (freeFrames lo hi m.mem - op.pages) := by
  have hstay : Sim lo hi held clean m r ∧
      freeFrames lo hi m.mem - op.pages ≤ freeFrames lo hi m.mem := ⟨S, Nat.sub_le _ _⟩
  cases op with
  | fork parent child =>
    simp only [Machine.step, Ref.step, S.tasks]
    cases hp : m.tasks parent with
    | none => exact hstay
    | some cur =>
      cases hc : m.tasks child with
      | some _ => exact hstay
      | none =>
        dsimp only
        by_cases hr : 1 ≤ child ∧ child < 64
        · rw [if_pos hr, if_pos hr]
          refine agrees_of (wp_mono (sim_fork S hp hc hr.1 hr.2) ?_ (fun _ _ h => h.elim))
          rintro q s' ⟨hdone, hfew⟩
          by_cases hq : q.1 = 0
          · obtain ⟨S', hleft⟩ := hdone hq
            rw [if_pos hq, ← S.tasks]
            rw [← S.tasks] at S'
            exact ⟨S', Nat.sub_le_iff_le_add.mpr hleft⟩
          · rw [if_neg hq]
            exact hfew hq
        · rw [if_neg hr, if_neg hr]
          exact hstay
  | store slot offset b =>
    simp only [Machine.step, Ref.step, S.tasks]
    cases hs : m.tasks slot with
    | none => exact hstay
    | some cur =>
      dsimp only
      by_cases ho : offset < cur.dataLimit
      · rw [if_pos ho, if_pos ho]
        refine agrees_of (wp_mono (sim_store S b hs ho) ?_ (fun _ _ h => h))
        rintro ok s' ⟨rfl, S', hleft⟩
        rw [S.tasks] at S'
        exact ⟨S', Nat.sub_le_iff_le_add.mpr hleft⟩
      · rw [if_neg ho, if_neg ho]
        exact hstay
  | exit slot =>
    simp only [Machine.step, Ref.step, S.tasks]
    cases hs : m.tasks slot with
    | none => exact hstay
    | some cur =>
      refine agrees_of (wp_mono (sim_exit S hs) ?_ (fun _ _ h => h.elim))
      rintro _ s' ⟨S', hleft⟩
      rw [S.tasks] at S'
      exact ⟨S', Nat.le_trans (Nat.sub_le _ _) hleft⟩

/-- Free pages suffice: each operation of the run finds as many as it may need. -/
def Machine.Room (lo hi : Nat) (m : Machine) : List Op → Prop
  | [] => True
  | op :: ops => op.pages ≤ freeFrames lo hi m.mem ∧
      ∀ m', m.step op = .done m' → m'.Room lo hi ops

/-- A whole run keeps the machines in step. It ends out of memory only where the free
pages did not suffice. -/
theorem sim_run (S : Sim lo hi held clean m r) (ops : List Op) :
    (m.run ops).Agrees lo hi held clean (r.run ops) (¬ m.Room lo hi ops) 0 := by
  induction ops generalizing m r with
  | nil => exact ⟨S, Nat.zero_le _⟩
  | cons op ops ih =>
    have hstep := sim_step S op
    show (match m.step op with
      | .done m' => m'.run ops
      | o => o).Agrees lo hi held clean ((r.step op).run ops) (¬ m.Room lo hi (op :: ops)) 0
    cases ho : m.step op with
    | done m' =>
      rw [ho] at hstep
      have hrest := ih hstep.1
      have hroom : m.Room lo hi (op :: ops) → m'.Room lo hi ops := fun h => h.2 m' ho
      show (m'.run ops).Agrees lo hi held clean ((r.step op).run ops) (¬ m.Room lo hi (op :: ops)) 0
      revert hrest
      cases m'.run ops with
      | done m'' => exact id
      | noMemory => exact fun h hm => h (hroom hm)
      | panicked p => exact id
      | refaulted => exact id
    | noMemory =>
      rw [ho] at hstep
      exact fun hm => absurd hm.1 (Nat.not_le_of_lt hstep)
    | panicked p =>
      rw [ho] at hstep
      exact hstep
    | refaulted =>
      rw [ho] at hstep
      exact hstep

/-- Reading through the page tables is reading the page of the cell. -/
theorem read_eq {slot off : Nat} (hs1 : 1 ≤ slot) (hs2 : slot < 64) (ho : off < 0x4000000) :
    m.read slot off = (mapOf m.mem (cell slot (off / 4096))).map fun e =>
      bytesOf (contents m.mem e.1) (Fin.ofNat 4096 off) := by
  obtain ⟨hdir, htab, hmod⟩ := slot_address hs2 ho
  have hmem : (cell slot (off / 4096)).1 ∈ dirs :=
    mem_dirs.mpr (by unfold cell; dsimp only; omega)
  unfold Machine.read
  generalize slot * 0x4000000 + off = address at *
  rw [translate_eq (by rw [hdir]; exact hmem), hdir, htab]
  cases hm : mapOf m.mem (cell slot (off / 4096)) with
  | none => rfl
  | some e =>
    obtain ⟨f, w⟩ := e
    simp only [Bool.false_and, Bool.false_eq_true, if_false, Option.map_some, hmod]
    congr 1
    unfold loadByte bytesOf contents
    have h1 : (f * 4096 + off % 4096) / 4 = f * 1024 + off % 4096 / 4 := by omega
    have h2 : (f * 4096 + off % 4096) % 4 = off % 4096 % 4 := by omega
    rw [h1, h2]
    rfl

/-- The task in a slot has not got the page directory as its page `p`. The child of
task 0 has, at page 0: fork shares the pages of the kernel, and the directory changes
with every fork. -/
def Machine.NoDirectory (m : Machine) (slot p : Nat) : Prop :=
  (mapOf m.mem (cell slot p)).map Prod.fst ≠ some 0

theorem sim_init (ok : m.Ok lo hi held) : Sim lo hi held m.NoDirectory m (Ref.of m) where
  ok := ok
  tasks := rfl
  pages := by
    intro slot cur p _ _ hne
    have hne : (mapOf m.mem (cell slot p)).map Prod.fst ≠ some 0 := hne
    refine ⟨hne, ?_⟩
    unfold Ref.of shows views
    dsimp only
    cases hm : mapOf m.mem (cell slot p) with
    | none => rfl
    | some e =>
      obtain ⟨g, w⟩ := e
      rw [hm] at hne
      have hg : g ≠ 0 := fun h => hne (by rw [h]; rfl)
      simp only [pageView, if_pos hg, Option.map_some]

/-- One task in slot 1 with a 64 MB segment and no page yet, 16 MB of memory. -/
def loneTask : Machine where
  mem := bootMem
  tasks := fun slot => if slot = 1 then some ⟨0x4000000, 0x4000000, 0x4000000, 0x4000000⟩ else none

theorem ok_loneTask :
    loneTask.Ok (firstFrame 0x400000) (endFrame 0x400000 0x1000000) (fun _ => 0) where
  acc := acc_bootMem
  live := by
    intro slot cur h
    unfold loneTask at h
    dsimp only at h
    split at h
    · next hs =>
      cases h
      subst hs
      exact ⟨by decide, by constructor <;> decide⟩
    · cases h
  within := by
    intro d hd
    exact absurd (tblOf_booted (booted_setupPaging _) d) hd

/-- The segments of task 0. -/
def initLdt : Ldt := ⟨0, 0, 0xA0000, 0xA0000⟩

/-- Task 0 has forked: its child in slot 1 is the only task with a slot of its own. -/
def firstTask (s : Mem) (cur : Ldt) : Machine where
  mem := s
  tasks := fun slot => if slot = 1 then some cur else none

end Linux011.Mm
