import Linux011.Mm.Cow

/-!
# Memory manager — kernel stores into user memory

A 386 in kernel mode ignores the read-only bit of a page, so a system call that
stores into user memory has to undo copy-on-write itself: `verify_area` calls
`write_verify` for every page of the buffer before the `put_fs_*` stores.

* `verifyArea_spec` — after `verify_area` every page of the buffer belongs to
  the caller alone, and no other task sees anything else than before;
* `putFs_private` — stores into such pages keep it so;
* `kernel_stores_private` — every call that stores into user memory does so
  into pages of its own, `sys_pipe` only when its array already lies on such.

A call is made in one go: what other tasks do while `sys_read` or `sys_waitpid`
sleeps is not part of this.
-/

namespace Linux011.Mm

open Linux011.Lib

/-! ## verify_area and put_fs_byte -/

/-- The loop of `verify_area`, with the routine it calls for each page. -/
def verifyPages (verify : Nat → MM Unit) (start : Nat) (size : Int) : MM Unit :=
  if 0 < size then do
    verify start
    verifyPages verify ((start + 4096) % 2 ^ 32) (size - 4096)
  else
    return ()
  termination_by size.toNat
  decreasing_by omega

/-- The body of `verify_area`. `start` is an `unsigned long`; `size` is an `int`,
also after the offset was added to it. -/
def verifyAreaBy (verify : Nat → MM Unit) (cur : Ldt) (addr : Nat) (size : Int) : MM Unit :=
  verifyPages verify (((addr &&& 0xfffff000) + cur.dataBase) % 2 ^ 32)
    ((size + (addr &&& 0xfff : Nat)).bmod (2 ^ 32))

/-- `verify_area`. -/
def verifyArea (cur : Ldt) (addr : Nat) (size : Int) : MM Unit :=
  verifyAreaBy (writeVerify cur) cur addr size

/-- A store of the kernel: the memory it was made in and its linear address. -/
structure Access where
  mem     : Mem
  address : Nat

/-- `put_fs_byte`: the processor looks for the page only, not for the right to
write it. A missing page is faulted in. -/
def putFsByte (cur : Ldt) (b : Byte) (addr : Nat) : MM Access := do
  match translate (← get) (cur.dataBase + addr) false with
  | .ok a =>
    let s ← get
    storeByte a b
    return ⟨s, cur.dataBase + addr⟩
  | .error f =>
    pageFault cur (cur.dataBase + addr) f
    let s ← get
    match translate s (cur.dataBase + addr) false with
    | .ok a => storeByte a b
    | .error _ => pure ()
    return ⟨s, cur.dataBase + addr⟩

/-- `put_fs_byte` and `put_fs_long` for bytes that follow each other. -/
def putFs (cur : Ldt) : Nat → List Byte → MM (List Access)
  | _, [] => return []
  | addr, b :: bs => do
    let a ← putFsByte cur b addr
    let as ← putFs cur (addr + 1) bs
    return a :: as

/-- The bytes of a long, the low one first. -/
def longBytes (w : Word) : List Byte := [getByte w 0, getByte w 1, getByte w 2, getByte w 3]

/-! ## The system calls -/

/-- What a call does to user memory: the area it has verified, if any, and the
bytes it then stores from an address on. -/
structure UserStores where
  verified : Option (Nat × Nat)
  addr     : Nat
  bytes    : List Byte

/-- `sys_read`. `read_pipe`, `rw_char`, `block_read` and `file_read` store what
they read from `buf` on, at most `count` bytes. -/
def sysRead (buf : Nat) (count : Int) (data : List Byte) : UserStores :=
  if count ≤ 0 then ⟨none, buf, []⟩
  else ⟨some (buf, count.toNat), buf, data.take count.toNat⟩

/-- `sys_pipe`, with the two descriptors it found, or none when there was no
descriptor, file or inode left. -/
def sysPipe (fildes : Nat) (fd : Option (Word × Word)) : UserStores :=
  match fd with
  | some (fd0, fd1) => ⟨none, fildes, longBytes fd0 ++ longBytes fd1⟩
  | none => ⟨none, fildes, []⟩

/-- `sys_waitpid`, with the code of the child it found. -/
def sysWaitpid (statAddr : Nat) (code : Option Word) : UserStores :=
  ⟨some (statAddr, 4), statAddr, (code.map longBytes).getD []⟩

/-- `cp_stat`, for `sys_stat` and `sys_fstat`: the bytes of `tmp`. -/
def cpStat (statbuf : Nat) (tmp : Vector Byte 32) : UserStores :=
  ⟨some (statbuf, 32), statbuf, tmp.toList⟩

/-- `sys_sigaction`: `save_old` when there is an `oldaction`. -/
def sysSigaction (oldaction : Nat) (tmp : Vector Byte 16) : UserStores :=
  if oldaction = 0 then ⟨none, oldaction, []⟩ else ⟨some (oldaction, 16), oldaction, tmp.toList⟩

/-- `sys_time`. -/
def sysTime (tloc : Nat) (i : Word) : UserStores :=
  if tloc = 0 then ⟨none, tloc, []⟩ else ⟨some (tloc, 4), tloc, longBytes i⟩

/-- `sys_times`. -/
def sysTimes (tbuf : Nat) (utime stime cutime cstime : Word) : UserStores :=
  if tbuf = 0 then ⟨none, tbuf, []⟩
  else ⟨some (tbuf, 16), tbuf,
    longBytes utime ++ longBytes stime ++ longBytes cutime ++ longBytes cstime⟩

/-- A name of `utsname`, padded to its nine bytes. -/
def utsField (name : String) : List Byte :=
  (name.toList.map fun c => BitVec.ofNat 8 c.toNat) ++ List.replicate (9 - name.length) 0#8

def thisname : List Byte :=
  utsField "linux .0" ++ utsField "nodename" ++ utsField "release " ++ utsField "version " ++
    utsField "machine "

/-- `sys_uname`. -/
def sysUname (name : Nat) : UserStores :=
  if name = 0 then ⟨none, name, []⟩ else ⟨some (name, 45), name, thisname⟩

/-- The calls that store into user memory, with what they find to store. -/
inductive UserCall
  | read (buf : Nat) (count : Int) (data : List Byte)
  | pipe (fildes : Nat) (fd : Option (Word × Word))
  | waitpid (statAddr : Nat) (code : Option Word)
  | stat (statbuf : Nat) (tmp : Vector Byte 32)
  | fstat (statbuf : Nat) (tmp : Vector Byte 32)
  | sigaction (oldaction : Nat) (tmp : Vector Byte 16)
  | time (tloc : Nat) (i : Word)
  | times (tbuf : Nat) (utime stime cutime cstime : Word)
  | uname (name : Nat)

def UserCall.stores : UserCall → UserStores
  | .read buf count data => sysRead buf count data
  | .pipe fildes fd => sysPipe fildes fd
  | .waitpid statAddr code => sysWaitpid statAddr code
  | .stat statbuf tmp => cpStat statbuf tmp
  | .fstat statbuf tmp => cpStat statbuf tmp
  | .sigaction oldaction tmp => sysSigaction oldaction tmp
  | .time tloc i => sysTime tloc i
  | .times tbuf utime stime cutime cstime => sysTimes tbuf utime stime cutime cstime
  | .uname name => sysUname name

/-- The buffer the call was given. -/
def UserCall.buffer : UserCall → Nat × Nat
  | .read buf count _ => (buf, count.toNat)
  | .pipe fildes _ => (fildes, 8)
  | .waitpid statAddr _ => (statAddr, 4)
  | .stat statbuf _ => (statbuf, 32)
  | .fstat statbuf _ => (statbuf, 32)
  | .sigaction oldaction _ => (oldaction, 16)
  | .time tloc _ => (tloc, 4)
  | .times tbuf _ _ _ _ => (tbuf, 16)
  | .uname name => (name, 45)

/-- The verification of a call. -/
def UserStores.verify (u : UserStores) (cur : Ldt) : MM Unit :=
  match u.verified with
  | some (addr, size) => verifyArea cur addr size
  | none => return ()

/-! ## Pages of one's own -/

/-- The frame an entry maps. -/
def frameAt (s : Mem) (x : Nat × Nat) : Option Nat := (mapOf s x).map Prod.fst

/-- The page behind `x` is a page of main memory no other entry maps. -/
def Private (s : Mem) (x : Nat × Nat) : Prop :=
  ∃ f, frameAt s x = some f ∧ 256 ≤ f ∧ ∀ y, y ≠ x → frameAt s y ≠ some f

/-- The cell of a linear address. -/
def cellOf (address : Nat) : Nat × Nat := (dirEntry address, tableIndex address)

/-- The buffer lies in the segment, on pages that are there. -/
def UserCall.OnPresentPages (c : UserCall) (m : Machine) (slot : Nat) (cur : Ldt) : Prop :=
  c.buffer.1 + c.buffer.2 ≤ cur.dataLimit ∧
    ∀ k < c.buffer.2, mapOf m.mem (cell slot ((c.buffer.1 + k) / 4096)) ≠ none

/-- **What is asked of a call** of the task in `slot`: its verification ends,
or kills the task for want of a page; then every store goes into a page that
belongs to the caller alone, and no other task reads anything else than before
the call. -/
def UserCall.RespectsCow (c : UserCall) (m : Machine) (slot : Nat) (cur : Ldt) : Prop :=
  wp (c.stores.verify cur) (fun _ s =>
    wp (putFs cur c.stores.addr c.stores.bytes) (fun log s' =>
      (∀ a ∈ log, Private a.mem (cellOf a.address)) ∧
        ∀ other off, other ≠ slot → 1 ≤ other → other < 64 → off < 0x4000000 →
          Machine.read ⟨s', m.tasks⟩ other off = m.read other off)
      (fun _ _ => False) s)
    (fun e _ => e = .exit) m.mem

variable {lo hi : Nat} {s s' : Mem} {held : Nat → Nat}

theorem frameAt_of_shows {x : Nat × Nat} (h : shows s' x = shows s x) :
    frameAt s' x = frameAt s x := congrArg Prod.fst h

/-- An entry that may be written maps a page of its own. -/
theorem private_of_writable (A : Acc lo hi s held) {x : Nat × Nat} {f : Nat}
    (h : mapOf s x = some (f, true)) : Private s x := by
  have hlow := A.low
  obtain ⟨hlo, -, -⟩ := A.inv.writable x (mem_cells_of_mapOf h) f h
  refine ⟨f, by rw [frameAt, h]; rfl, by omega, ?_⟩
  intro y hy hfy
  obtain ⟨⟨g, w⟩, hm, hg⟩ := Option.map_eq_some_iff.mp hfy
  dsimp only at hg
  subst hg
  exact hy (A.inv.writable_sole (mem_cells_of_mapOf h) (mem_cells_of_mapOf hm) h hm).symm

/-- What preparing pages of the task in `slot` keeps: pages of one's own, every
page that is there, what the other tasks see, and the page directory. -/
structure Prepared (slot : Nat) (s s' : Mem) : Prop where
  own   : ∀ x, Private s x → Private s' x
  there : ∀ x, mapOf s x ≠ none → mapOf s' x ≠ none
  other : ∀ x, x.1 / 16 ≠ slot → shows s' x = shows s x
  dir   : ∀ a < 1024, s'.phys a = s.phys a

theorem Prepared.refl (slot : Nat) (s : Mem) : Prepared slot s s :=
  ⟨fun _ h => h, fun _ h => h, fun _ _ => rfl, fun _ _ => rfl⟩

theorem Prepared.trans {slot : Nat} {s s1 s2 : Mem} (h : Prepared slot s s1)
    (h' : Prepared slot s1 s2) : Prepared slot s s2 where
  own x hx := h'.own x (h.own x hx)
  there x hx := h'.there x (h.there x hx)
  other x hx := (h'.other x hx).trans (h.other x hx)
  dir a ha := (h'.dir a ha).trans (h.dir a ha)

/-- What a task reads is what its cell shows. -/
theorem read_of_shows {tasks : Nat → Option Ldt} {slot off : Nat} (hs1 : 1 ≤ slot)
    (hs2 : slot < 64) (ho : off < 0x4000000)
    (h : shows s' (cell slot (off / 4096)) = shows s (cell slot (off / 4096)))
    (hdir : ∀ a < 1024, s'.phys a = s.phys a) :
    Machine.read ⟨s', tasks⟩ slot off = Machine.read ⟨s, tasks⟩ slot off := by
  rw [read_eq hs1 hs2 ho, read_eq hs1 hs2 ho]
  dsimp only
  have hframe := frameAt_of_shows h
  have hview : views s' (cell slot (off / 4096)) = views s (cell slot (off / 4096)) :=
    congrArg Prod.snd h
  unfold frameAt at hframe
  unfold views at hview
  cases hm : mapOf s (cell slot (off / 4096)) with
  | none =>
    rw [hm] at hframe
    rw [Option.map_eq_none_iff.mp hframe]
    rfl
  | some e =>
    obtain ⟨f, w⟩ := e
    rw [hm] at hframe hview
    obtain ⟨⟨g, w'⟩, hm', hg⟩ := Option.map_eq_some_iff.mp hframe
    dsimp only at hg
    subst hg
    rw [hm'] at hview ⊢
    rw [Option.map_some, Option.map_some]
    dsimp only
    congr 2
    by_cases hg0 : g = 0
    · -- the page directory, as a child of task 0 maps it
      subst hg0
      unfold contents
      funext k
      have hk := k.isLt
      exact hdir _ (by omega)
    · simp only [pageView, ne_eq, hg0, not_false_eq_true, if_true] at hview
      exact Option.some.inj hview

/-! ## write_verify -/

/-- `un_wp_page` writes the entry and a free page. -/
theorem unWpPage_kept (A : Acc lo hi s held) {cur : Ldt} {slot d j t : Nat}
    (hcur : cur.InSlot slot) (hslot : 1 ≤ slot) (ht : tblOf s d = some t) :
    wp (unWpPage cur (t * 1024 + j)) (fun _ s' => ∀ a, a ≠ t * 1024 + j →
      (lo ≤ a / 1024 → a / 1024 < hi → s.memMap (a / 1024 - 256) ≠ 0) → s'.phys a = s.phys a)
      (fun e _ => e = .exit) s := by
  have hlow := A.low
  obtain ⟨hlt, -⟩ := A.tbl_main ht
  unfold unWpPage
  simp only [wp_bind, wp_load, wp_get]
  rw [wp_ite]
  constructor
  · intro _
    rw [wp_store]
    intro a ha _
    exact Function.update_of_ne ha _ _
  · intro _
    rw [wp_bind]
    refine wp_mono (getFreePage_spec A) ?_ (fun _ _ h => h.elim)
    rintro r s1 (⟨rfl, rfl, -⟩ | ⟨f, rfl, hlo, hhi, h0, rfl, -⟩)
    · rw [if_pos rfl]
      exact wp_mono (oom_spec A hcur hslot _) (fun _ _ h => h) (fun _ _ h => h.1)
    rw [if_neg (by omega), pageAddr_eq]
    -- the entry goes into the table, the copy into the frame just taken
    have hcopy : ∀ g (s2 : Mem), s2.phys = (taken s f).phys →
        wp (do store (t * 1024 + j) (entry7 (f * 4096)); copyPage (g * 4096) (f * 4096))
          (fun _ s' => ∀ a, a ≠ t * 1024 + j →
            (lo ≤ a / 1024 → a / 1024 < hi → s.memMap (a / 1024 - 256) ≠ 0) →
            s'.phys a = s.phys a) (fun e _ => e = .exit) s2 := by
      intro g s2 hs2
      rw [wp_bind, wp_store, wp_copyPage]
      intro a ha hused
      have haf : a / 1024 ≠ f := by
        rintro rfl
        exact hused hlo hhi h0
      dsimp only
      rw [if_neg haf, Function.update_of_ne ha, hs2]
      exact onlyFrame_taken f a haf
    rw [wp_ite]
    constructor
    · intro _
      simp only [wp_bind, wp_get, wp_setMemMap]
      exact hcopy _ _ rfl
    · intro _
      exact hcopy _ _ rfl

/-- It does not write the page directory. -/
theorem unWpPage_dir (A : Acc lo hi s held) {cur : Ldt} {slot d j t : Nat}
    (hcur : cur.InSlot slot) (hslot : 1 ≤ slot) (ht : tblOf s d = some t) :
    wp (unWpPage cur (t * 1024 + j)) (fun _ s' => ∀ a < 1024, s'.phys a = s.phys a)
      (fun e _ => e = .exit) s := by
  have hlow := A.low
  obtain ⟨hlt, -⟩ := A.tbl_main ht
  refine wp_mono (unWpPage_kept A hcur hslot ht) ?_ (fun _ _ h => h)
  intro _ s' hkept a ha
  exact hkept a (by omega) (by omega)

/-- An unshared entry and the pages of one's own. -/
theorem Unshared.prepared (A : Acc lo hi s' held) {x : Nat × Nat} {g slot : Nat}
    (h : Unshared s x g s') (hx : x.1 / 16 = slot) (hdir : ∀ a < 1024, s'.phys a = s.phys a) :
    Prepared slot s s' ∧ Private s' x := by
  obtain ⟨f, -, hm⟩ := h.entry
  have hpx := private_of_writable A hm
  refine ⟨⟨?_, ?_, ?_, hdir⟩, hpx⟩
  · intro y hy
    by_cases hyx : y = x
    · rw [hyx]
      exact hpx
    · obtain ⟨k, hk, hk256, hsole⟩ := hy
      have hk' : frameAt s' y = some k := by rw [frameAt_of_shows (h.cells y hyx), hk]
      refine ⟨k, hk', hk256, ?_⟩
      intro z hz hzk
      by_cases hzx : z = x
      · -- the page of `x` is in no other cell
        obtain ⟨f', hf', -, hx'⟩ := hpx
        rw [hzx, hf'] at hzk
        exact hx' y hyx (by rw [hk', hzk])
      · rw [frameAt_of_shows (h.cells z hzx)] at hzk
        exact hsole z hz hzk
  · intro y hy hnone
    by_cases hyx : y = x
    · rw [hyx, hm] at hnone
      cases hnone
    · have hf := frameAt_of_shows (h.cells y hyx)
      unfold frameAt at hf
      rw [hnone] at hf
      exact hy (Option.map_eq_none_iff.mp hf.symm)
  · intro y hy
    refine h.cells y ?_
    rintro rfl
    exact hy hx

/-- The test of `write_verify` for a page that is there and read-only. -/
theorem and3_eq_one {w : Word} (hp : present w = true) (hw : writable w = false) :
    w &&& 3#32 = 1#32 := by
  have h1 : w &&& 1#32 = 1#32 := by
    rw [present_eq] at hp
    rw [show (1#32 : Word) = BitVec.twoPow 32 0 from rfl, BitVec.and_twoPow, hp]
    rfl
  have h2 : w &&& 2#32 = 0#32 := by simpa [writable] using hw
  have h3 : (3#32 : Word) = 1#32 ||| 2#32 := rfl
  rw [h3, BitVec.and_or_distrib_left, h1, h2]
  rfl

/-- **`write_verify`** on a page that is there makes it the caller's own. -/
theorem writeVerify_private (A : Acc lo hi s held) {cur : Ldt} {slot address : Nat}
    (hcur : cur.InSlot slot) (hslot : 1 ≤ slot) (hx : dirEntry address / 16 = slot)
    (hm : mapOf s (cellOf address) ≠ none) :
    wp (writeVerify cur address) (fun _ s' =>
      Acc lo hi s' held ∧ Prepared slot s s' ∧ Private s' (cellOf address))
      (fun e _ => e = .exit) s := by
  obtain ⟨⟨g, b⟩, hmg⟩ := Option.ne_none_iff_exists'.mp hm
  unfold cellOf at hmg ⊢
  obtain ⟨t, ht, htable⟩ := entry_of_mapOf hmg
  have hj := tableIndex_lt address
  have hentry := mapOf_of_tbl ht hj
  rw [hmg] at hentry
  unfold writeVerify
  simp only [wp_bind, wp_load]
  rw [if_pos (tblOf_eq_some.mp ht).2.1, htable]
  simp only [wp_bind, wp_load]
  rw [wp_ite]
  constructor
  · intro _
    have hun := unWpPage_spec A hcur hslot ht hj hmg
    have hdir := unWpPage_dir (j := tableIndex address) A hcur hslot ht
    refine wp_mono (wp_and hun hdir) ?_ (fun _ _ h => h.2)
    rintro _ s' ⟨⟨A', hu⟩, hd⟩
    obtain ⟨hprep, hpriv⟩ := hu.prepared A' hx hd
    exact ⟨A', hprep, hpriv⟩
  · intro hrw
    -- present and not read-only: the entry may be written
    have hb : b = true := by
      unfold entryOf at hentry
      split at hentry
      · next hp =>
        have hwb := congrArg Prod.snd (Option.some.inj hentry)
        dsimp only at hwb
        rw [hwb]
        by_contra hnw
        exact hrw (and3_eq_one hp (by simpa using hnw))
      · cases hentry
    rw [hb] at hmg
    exact ⟨A, Prepared.refl slot s, private_of_writable A hmg⟩

/-! ## verify_area -/

theorem cellOf_page {slot p : Nat} (hs : slot < 64) (hp : p < 16384) :
    cellOf (slot * 0x4000000 + p * 4096) = cell slot p := by
  obtain ⟨h1, h2, -⟩ := slot_address hs (show p * 4096 < 0x4000000 by omega)
  have hdiv : p * 4096 / 4096 = p := Nat.mul_div_cancel p (by decide)
  rw [hdiv] at h1 h2
  unfold cellOf
  rw [h1, h2]

theorem cellOf_byte {slot off : Nat} (hs : slot < 64) (ho : off < 0x4000000) :
    cellOf (slot * 0x4000000 + off) = cell slot (off / 4096) := by
  obtain ⟨h1, h2, -⟩ := slot_address hs ho
  unfold cellOf
  rw [h1, h2]

/-- Linear addresses are 32 bits wide. -/
theorem cellOf_mod (address : Nat) : cellOf (address % 2 ^ 32) = cellOf address := by
  unfold cellOf
  rw [dirEntry_eq, dirEntry_eq, tableIndex_eq, tableIndex_eq]
  refine Prod.ext ?_ ?_
  · dsimp only
    omega
  · dsimp only
    omega

/-- The loop of `verify_area`, by the bytes that are left: the pages from `p` on
become the caller's own, and those that were stay so. -/
theorem verifyPages_spec {cur : Ldt} {slot : Nat} (hcur : cur.InSlot slot) (hslot : 1 ≤ slot)
    (start : Nat) (size : Int) :
    ∀ {s : Mem} {p : Nat}, start = (slot * 0x4000000 + p * 4096) % 2 ^ 32 →
      p * 4096 + size ≤ 0x4000000 → Acc lo hi s held →
      (∀ q : Nat, p ≤ q → q * 4096 < p * 4096 + size → mapOf s (cell slot q) ≠ none) →
      wp (verifyPages (writeVerify cur) start size) (fun _ s' =>
        Acc lo hi s' held ∧ Prepared slot s s' ∧
          ∀ q : Nat, p ≤ q → q * 4096 < p * 4096 + size → Private s' (cell slot q))
        (fun e _ => e = .exit) s := by
  fun_induction verifyPages (writeVerify cur) start size with
  | case1 start size hsize ih =>
    intro s p hstart hfit A hthere
    have hp : p < 16384 := by omega
    have hcell : cellOf start = cell slot p := by
      rw [hstart, cellOf_mod]
      exact cellOf_page hcur.slot_lt hp
    have hx : dirEntry start / 16 = slot := by
      have h : (cell slot p).1 / 16 = slot := cell_slot hp
      rw [← hcell] at h
      exact h
    rw [wp_bind]
    have hm : mapOf s (cellOf start) ≠ none := by
      rw [hcell]
      exact hthere p (Nat.le_refl p) (by omega)
    refine wp_mono (writeVerify_private A hcur hslot hx hm) ?_ (fun _ _ h => h)
    rintro _ s1 ⟨A1, hprep1, hpriv1⟩
    rw [hcell] at hpriv1
    have hrest : ∀ q : Nat, p + 1 ≤ q → (q : Int) * 4096 < (p + 1 : Nat) * 4096 + (size - 4096) →
        mapOf s1 (cell slot q) ≠ none :=
      fun q h1 h2 => hprep1.there _ (hthere q (by omega) (by omega))
    refine wp_mono (ih (p := p + 1) (by omega) (by omega) A1 hrest) ?_ (fun _ _ h => h)
    rintro _ s2 ⟨A2, hprep2, hpriv2⟩
    refine ⟨A2, hprep1.trans hprep2, ?_⟩
    intro q h1 h2
    by_cases hq : q = p
    · rw [hq]
      exact hprep2.own _ hpriv1
    · exact hpriv2 q (by omega) (by omega)
  | case2 start size hsize =>
    intro s p hstart hfit A hthere
    rw [wp_pure]
    refine ⟨A, Prepared.refl slot s, ?_⟩
    intro q h1 h2
    omega

/-- The page and the offset of an address, as `verify_area` takes them apart. -/
theorem and_fffff000 {addr : Nat} (h : addr < 2 ^ 32) : addr &&& 0xfffff000 = addr / 4096 * 4096 := by
  have h' := pageAddr_eq (BitVec.ofNat 32 addr)
  unfold pageAddr frameOf at h'
  rw [BitVec.toNat_and, BitVec.toNat_ofNat, Nat.mod_eq_of_lt h] at h'
  rw [show (0xfffff000#32 : Word).toNat = 0xfffff000 from rfl] at h'
  exact h'

theorem and_fff (addr : Nat) : addr &&& 0xfff = addr % 4096 :=
  Nat.and_two_pow_sub_one_eq_mod addr 12

/-- **`verify_area`**: the pages of the area become the caller's own. -/
theorem verifyArea_spec (A : Acc lo hi s held) {cur : Ldt} {slot addr size : Nat}
    (hcur : cur.InSlot slot) (hslot : 1 ≤ slot) (hpos : 0 < size)
    (hfit : addr + size ≤ 0x4000000) (hthere : ∀ k < size, mapOf s (cell slot ((addr + k) / 4096)) ≠ none) :
    wp (verifyArea cur addr size) (fun _ s' =>
      Acc lo hi s' held ∧ Prepared slot s s' ∧
        ∀ k < size, Private s' (cell slot ((addr + k) / 4096)))
      (fun e _ => e = .exit) s := by
  have hsize : ((size : Int) + (addr % 4096 : Nat)).bmod (2 ^ 32) = size + (addr % 4096 : Nat) :=
    Int.bmod_eq_of_le (by omega) (by omega)
  unfold verifyArea verifyAreaBy
  rw [and_fffff000 (by omega), and_fff, hcur.data, hsize]
  refine wp_mono (verifyPages_spec hcur hslot _ _ (p := addr / 4096) (by omega) (by omega) A ?_) ?_
    (fun _ _ h => h)
  · intro q h1 h2
    -- the first byte of the area on page `q`
    have h := hthere (max (q * 4096) addr - addr) (by omega)
    have hq : (addr + (max (q * 4096) addr - addr)) / 4096 = q := by omega
    rwa [hq] at h
  · rintro _ s' ⟨A', hprep, hpriv⟩
    refine ⟨A', hprep, ?_⟩
    intro k hk
    exact hpriv _ (by omega) (by omega)

/-! ## The stores -/

/-- Memory after a byte was stored. -/
def byteStored (s : Mem) (a : Nat) (b : Byte) : Mem :=
  { s with phys := Function.update s.phys (a / 4) (setByte (s.phys (a / 4)) (a % 4) b) }

theorem wp_storeByte (a : Nat) (b : Byte) (Q : Unit → Mem → Prop) (E : Stop → Mem → Prop) :
    wp (storeByte a b) Q E s ↔ Q () (byteStored s a b) := by
  unfold storeByte
  rw [wp_bind, wp_load, wp_store]
  rfl

/-- A page that is there is stored to at once, whether it may be written or not. -/
theorem wp_putFsByte {cur : Ldt} {slot off f : Nat} (hcur : cur.InSlot slot) (hslot : 1 ≤ slot)
    (ho : off < 0x4000000) (b : Byte) (hf : frameAt s (cell slot (off / 4096)) = some f)
    (Q : Access → Mem → Prop) (E : Stop → Mem → Prop) :
    wp (putFsByte cur b off) Q E s ↔
      Q ⟨s, slot * 0x4000000 + off⟩ (byteStored s (f * 4096 + off % 4096) b) := by
  obtain ⟨h1, h2, h3⟩ := slot_address hcur.slot_lt ho
  have hd : dirEntry (slot * 0x4000000 + off) ∈ dirs := by
    have := hcur.slot_lt
    rw [h1]
    exact mem_dirs.mpr (by unfold cell; dsimp only; omega)
  obtain ⟨⟨g, w⟩, hm, hg⟩ := Option.map_eq_some_iff.mp hf
  dsimp only at hg
  subst hg
  have htr : translate s (slot * 0x4000000 + off) false = .ok (g * 4096 + off % 4096) := by
    rw [translate_eq hd, h1, h2, hm, h3]
    simp only [Bool.false_and, Bool.false_eq_true, if_false]
  unfold putFsByte
  rw [hcur.data, wp_bind, wp_get, htr]
  simp only [wp_bind, wp_get, wp_pure, wp_storeByte]

/-- A store into a page of one's own keeps every entry, what the other cells
show and the page directory. -/
theorem byteStored_private (A : Acc lo hi s held) {x : Nat × Nat} {f o : Nat}
    (hf : frameAt s x = some f) (hp : Private s x) (ho : o < 4096) (b : Byte) :
    Acc lo hi (byteStored s (f * 4096 + o) b) held ∧
      mapOf (byteStored s (f * 4096 + o) b) = mapOf s ∧
      (∀ y, y ≠ x → shows (byteStored s (f * 4096 + o) b) y = shows s y) ∧
      ∀ a < 1024, (byteStored s (f * 4096 + o) b).phys a = s.phys a := by
  obtain ⟨f', hf', h256, hsole⟩ := hp
  obtain rfl : f' = f := by rw [hf] at hf'; exact (Option.some.inj hf').symm
  obtain ⟨⟨g, w⟩, hm, hg⟩ := Option.map_eq_some_iff.mp hf
  dsimp only at hg
  subst hg
  obtain ⟨hlo, hhi, -, -⟩ := A.cnt_mapped hm h256
  have haddr : (g * 4096 + o) / 4 = g * 1024 + o / 4 := by omega
  obtain ⟨A', hof, htbl, hmap⟩ := acc_frame A hlo (fun d ht => A.tbl_not_mapped ht hm)
    (setByte (s.phys (g * 1024 + o / 4)) ((g * 4096 + o) % 4) b) (show o / 4 < 1024 by omega)
  rw [← haddr] at A' hof htbl hmap
  refine ⟨A', hmap, ?_, ?_⟩
  · intro y hy
    refine shows_congr (congrFun hmap y) (views_eq_of_frame hof (congrFun hmap y) ?_)
    intro w' hmy
    exact absurd (by rw [frameAt, hmy]; rfl) (hsole y hy)
  · intro a ha
    exact hof a (by omega)

/-- The same with the pages of one's own and what the other tasks see. -/
theorem byteStored_prepared (A : Acc lo hi s held) {slot off f : Nat} (ho : off < 0x4000000)
    (hf : frameAt s (cell slot (off / 4096)) = some f) (hp : Private s (cell slot (off / 4096)))
    (b : Byte) :
    Acc lo hi (byteStored s (f * 4096 + off % 4096) b) held ∧
      mapOf (byteStored s (f * 4096 + off % 4096) b) = mapOf s ∧
      Prepared slot s (byteStored s (f * 4096 + off % 4096) b) := by
  obtain ⟨A', hmap, hshows, hdir⟩ := byteStored_private A hf hp (Nat.mod_lt off (by decide)) b
  refine ⟨A', hmap, ⟨?_, ?_, ?_, hdir⟩⟩
  · intro y hy
    unfold Private frameAt at hy ⊢
    rw [hmap]
    exact hy
  · intro y hy
    rw [hmap]
    exact hy
  · intro y hy
    refine hshows y ?_
    rintro rfl
    exact hy (cell_slot (by omega))

/-- **Stores into pages of one's own** stay there, whatever is stored. -/
theorem putFs_private {cur : Ldt} {slot : Nat} (hcur : cur.InSlot slot) (hslot : 1 ≤ slot)
    (bs : List Byte) :
    ∀ {s : Mem} {addr : Nat}, Acc lo hi s held → addr + bs.length ≤ 0x4000000 →
      (∀ k < bs.length, Private s (cell slot ((addr + k) / 4096))) →
      wp (putFs cur addr bs) (fun log s' =>
        (∀ a ∈ log, Private a.mem (cellOf a.address)) ∧ Prepared slot s s')
        (fun _ _ => False) s := by
  induction bs with
  | nil =>
    intro s addr _ _ _
    unfold putFs
    rw [wp_pure]
    exact ⟨by simp, Prepared.refl slot s⟩
  | cons b bs ih =>
    intro s addr A hfit hpriv
    rw [List.length_cons] at hfit hpriv
    have hp0 : Private s (cell slot (addr / 4096)) := hpriv 0 (by omega)
    obtain ⟨f, hf, -, -⟩ := id hp0
    obtain ⟨A1, hmap1, hprep1⟩ := byteStored_prepared A (by omega) hf hp0 b
    unfold putFs
    rw [wp_bind, wp_putFsByte hcur hslot (by omega) b hf, wp_bind]
    refine wp_mono (ih A1 (by omega) ?_) ?_ (fun _ _ h => h)
    · intro k hk
      rw [Nat.add_assoc, Nat.add_comm 1 k]
      exact hprep1.own _ (hpriv (k + 1) (by omega))
    · rintro log s' ⟨hlog, hprep⟩
      rw [wp_pure]
      refine ⟨?_, hprep1.trans hprep⟩
      intro a ha
      rcases List.mem_cons.mp ha with rfl | ha
      · dsimp only
        rw [cellOf_byte hcur.slot_lt (by omega)]
        exact hp0
      · exact hlog a ha

/-- Stores that all went into pages of one's own were made on a buffer of such
pages: no store before changed an entry. -/
theorem private_of_putFs {cur : Ldt} {slot : Nat} (hcur : cur.InSlot slot) (hslot : 1 ≤ slot)
    (bs : List Byte) :
    ∀ {s : Mem} {addr : Nat}, Acc lo hi s held → addr + bs.length ≤ 0x4000000 →
      (∀ k < bs.length, mapOf s (cell slot ((addr + k) / 4096)) ≠ none) →
      wp (putFs cur addr bs) (fun log _ => ∀ a ∈ log, Private a.mem (cellOf a.address))
        (fun _ _ => False) s →
      ∀ k < bs.length, Private s (cell slot ((addr + k) / 4096)) := by
  induction bs with
  | nil =>
    intro s addr _ _ _ _ k hk
    cases hk
  | cons b bs ih =>
    intro s addr A hfit hthere hwp
    rw [List.length_cons] at hfit hthere ⊢
    obtain ⟨⟨f, w⟩, hm⟩ := Option.ne_none_iff_exists'.mp (hthere 0 (by omega))
    have hf : frameAt s (cell slot (addr / 4096)) = some f := by
      unfold frameAt
      rw [Nat.add_zero] at hm
      rw [hm]
      rfl
    unfold putFs at hwp
    rw [wp_bind, wp_putFsByte hcur hslot (by omega) b hf, wp_bind] at hwp
    simp only [wp_pure] at hwp
    -- the first store
    have hp0 : Private s (cell slot (addr / 4096)) := by
      have h := wp_returns hwp fun _ _ h => h
      obtain ⟨log, s', hlog⟩ := h
      have h0 := hlog ⟨s, slot * 0x4000000 + addr⟩ List.mem_cons_self
      dsimp only at h0
      rwa [cellOf_byte hcur.slot_lt (by omega)] at h0
    obtain ⟨A1, hmap1, hprep1⟩ := byteStored_prepared A (by omega) hf hp0 b
    have hthere1 : ∀ k < bs.length,
        mapOf (byteStored s (f * 4096 + addr % 4096) b) (cell slot ((addr + 1 + k) / 4096)) ≠ none := by
      intro k hk
      rw [hmap1, Nat.add_assoc, Nat.add_comm 1 k]
      exact hthere (k + 1) (by omega)
    have hrest := ih A1 (by omega) hthere1
      (wp_mono hwp (fun log _ h a ha => h a (List.mem_cons_of_mem _ ha)) (fun _ _ h => h))
    intro k hk
    cases k with
    | zero => exact hp0
    | succ k =>
      have h := hrest k (by omega)
      unfold Private frameAt at h ⊢
      rw [hmap1] at h
      rw [Nat.add_comm k 1, ← Nat.add_assoc]
      exact h

/-! ## The calls -/

/-- The call verifies its buffer and stores within it, or stores nothing. -/
def UserStores.Covered (u : UserStores) (buffer : Nat × Nat) : Prop :=
  u.verified = none ∧ u.bytes = [] ∨
    u.verified = some buffer ∧ 0 < buffer.2 ∧ u.addr = buffer.1 ∧ u.bytes.length ≤ buffer.2

/-- The array two descriptors are stored into, where the call gets that far. -/
def UserCall.pipeArray : UserCall → Option Nat
  | .pipe fildes (some _) => some fildes
  | _ => none

theorem stores_covered (c : UserCall) (h : c.pipeArray = none) : c.stores.Covered c.buffer := by
  cases c with
  | read buf count data =>
    unfold UserCall.stores UserCall.buffer sysRead UserStores.Covered
    by_cases hc : count ≤ 0
    · left
      simp [hc]
    · right
      simp only [hc, if_false, List.length_take, true_and]
      omega
  | pipe fildes fd =>
    cases fd with
    | none => exact Or.inl ⟨rfl, rfl⟩
    | some fd => cases h
  | waitpid statAddr code =>
    refine Or.inr ⟨rfl, by show 0 < 4; omega, rfl, ?_⟩
    cases code with
    | none => exact Nat.zero_le _
    | some w => exact Nat.le_refl 4
  | stat statbuf tmp => exact Or.inr ⟨rfl, by show 0 < 32; omega, rfl, by simp [UserCall.stores, cpStat, UserCall.buffer]⟩
  | fstat statbuf tmp => exact Or.inr ⟨rfl, by show 0 < 32; omega, rfl, by simp [UserCall.stores, cpStat, UserCall.buffer]⟩
  | sigaction oldaction tmp =>
    unfold UserCall.stores UserCall.buffer sysSigaction UserStores.Covered
    by_cases h0 : oldaction = 0
    · left
      simp [h0]
    · right
      simp [h0]
  | time tloc i =>
    unfold UserCall.stores UserCall.buffer sysTime UserStores.Covered
    by_cases h0 : tloc = 0
    · left
      simp [h0]
    · right
      simp [h0, longBytes]
  | times tbuf utime stime cutime cstime =>
    unfold UserCall.stores UserCall.buffer sysTimes UserStores.Covered
    by_cases h0 : tbuf = 0
    · left
      simp [h0]
    · right
      simp [h0, longBytes]
  | uname name =>
    unfold UserCall.stores UserCall.buffer sysUname UserStores.Covered
    have hlen : thisname.length = 45 := by decide
    by_cases h0 : name = 0
    · left
      simp [h0]
    · right
      simp [h0, hlen]

variable {m : Machine} {slot : Nat} {cur : Ldt} {c : UserCall}

/-- What the other tasks read after verification and stores. -/
theorem reads_of_prepared {s s' : Mem} (h : Prepared slot m.mem s) (h' : Prepared slot s s') :
    ∀ other off, other ≠ slot → 1 ≤ other → other < 64 → off < 0x4000000 →
      Machine.read ⟨s', m.tasks⟩ other off = m.read other off := by
  intro other off hne h1 h2 ho
  refine read_of_shows h1 h2 ho ?_ (h.trans h').dir
  refine (h.trans h').other _ ?_
  rw [cell_slot (by omega)]
  exact hne

/-- A call that verifies what it stores to. -/
theorem respects_covered (ok : m.Ok lo hi held) (hs : m.tasks slot = some cur)
    (hbuf : c.OnPresentPages m slot cur) (hcov : c.stores.Covered c.buffer) :
    c.RespectsCow m slot cur := by
  obtain ⟨hs1, hin⟩ := ok.live slot cur hs
  unfold UserCall.OnPresentPages at hbuf
  unfold UserStores.Covered at hcov
  generalize c.buffer = buffer at hbuf hcov
  obtain ⟨addr, size⟩ := buffer
  dsimp only at hbuf hcov
  obtain ⟨hfit, hthere⟩ := hbuf
  have htop := hin.top
  unfold UserCall.RespectsCow UserStores.verify
  rcases hcov with ⟨hnone, hempty⟩ | ⟨hver, hpos, haddr, hlen⟩
  · rw [hnone, hempty]
    dsimp only
    unfold putFs
    rw [wp_pure, wp_pure]
    exact ⟨by simp, reads_of_prepared (Prepared.refl slot _) (Prepared.refl slot _)⟩
  · rw [hver, haddr]
    refine wp_mono (verifyArea_spec ok.acc hin hs1 hpos (by omega) hthere) ?_ (fun _ _ h => h)
    rintro _ s ⟨A, hprep, hpriv⟩
    refine wp_mono (putFs_private hin hs1 _ A (by omega) ?_) ?_ (fun _ _ h => h)
    · intro k hk
      exact hpriv k (by omega)
    · rintro log s' ⟨hlog, hprep'⟩
      exact ⟨hlog, reads_of_prepared hprep hprep'⟩

/-- **Kernel stores and copy-on-write.** A system call that stores into user
memory, on a buffer of pages that are there, stores into pages of the caller
alone and leaves what the other tasks read as it was; all but `sys_pipe`, which
does so exactly when the pages under its array are the caller's own before the
call. -/
theorem kernel_stores_private (ok : m.Ok lo hi held) (hs : m.tasks slot = some cur)
    (c : UserCall) (hbuf : c.OnPresentPages m slot cur) :
    c.RespectsCow m slot cur ↔
      ∀ fildes, c.pipeArray = some fildes →
        ∀ k < 8, Private m.mem (cell slot ((fildes + k) / 4096)) := by
  cases harray : c.pipeArray with
  | none =>
    refine ⟨fun _ fildes h => (by cases h), fun _ => ?_⟩
    exact respects_covered ok hs hbuf (stores_covered c harray)
  | some array =>
    obtain ⟨hs1, hin⟩ := ok.live slot cur hs
    obtain ⟨hfit, hthere⟩ := hbuf
    have htop := hin.top
    unfold UserCall.pipeArray at harray
    split at harray
    · next fildes fd =>
      obtain ⟨fd0, fd1⟩ := fd
      cases harray
      have hlen : (longBytes fd0 ++ longBytes fd1).length = 8 := rfl
      have hfit' : array + (longBytes fd0 ++ longBytes fd1).length ≤ 0x4000000 := by
        rw [hlen]
        exact Nat.le_trans hfit htop
      show wp (putFs cur array (longBytes fd0 ++ longBytes fd1)) _ _ m.mem ↔ _
      constructor
      · rintro hwp fildes hf
        cases hf
        exact private_of_putFs hin hs1 _ ok.acc hfit' hthere
          (wp_mono hwp (fun _ _ h => h.1) (fun _ _ h => h))
      · intro hpriv
        refine wp_mono (putFs_private hin hs1 _ ok.acc hfit' (hpriv array rfl)) ?_ (fun _ _ h => h)
        rintro log s' ⟨hlog, hprep⟩
        exact ⟨hlog, reads_of_prepared (Prepared.refl slot _) hprep⟩
    · cases harray

/-- A run keeps the machine in order. -/
theorem Machine.Ok.run (ok : m.Ok lo hi held) {ops : List Op} {m' : Machine}
    (h : m.run ops = .done m') : m'.Ok lo hi held := by
  have hsim := sim_run (sim_init ok) ops
  rw [h] at hsim
  have S : Sim lo hi held m.NoDirectory m' ((Ref.of m).run ops) := hsim.1
  exact S.ok

/-- What the parent reads at offset 5 before and after the child's `sys_pipe`
stored descriptors 3 and 4 into an array at offset 4, on the page they share. -/
def parentReads (m : Machine) (cur : Ldt) : Option (Option Byte × Option Byte) :=
  match putFs cur 4 (longBytes 3#32 ++ longBytes 4#32) m.mem with
  | .ok _ s => some (m.read 1 5, Machine.read ⟨s, m.tasks⟩ 1 5)
  | .error _ _ => none

/-- The parent of a fork has its data, in a page it may not write. -/
def parentWaits (o : Outcome) : Bool :=
  match o with
  | .done m => match m.tasks 2 with
    | some cur => parentReads m cur == some (some 7#8, some 0#8) &&
        decide (4096 ≤ cur.dataLimit) && (mapOf m.mem (cell 2 0)).map Prod.snd == some false
    | none => false
  | _ => false

/-- The lone task stores a byte and forks. -/
theorem loneTask_forked :
    ∃ m cur, loneTask.run [.store 1 5 7#8, .fork 1 2] = .done m ∧
      m.Ok (firstFrame 0x400000) (endFrame 0x400000 0x1000000) (fun _ => 0) ∧
      m.tasks 2 = some cur ∧ 4096 ≤ cur.dataLimit ∧ (∃ f, mapOf m.mem (cell 2 0) = some (f, false)) ∧
      parentReads m cur = some (some 7#8, some 0#8) := by
  have hrun : parentWaits (loneTask.run [.store 1 5 7#8, .fork 1 2]) = true := by decide +kernel
  unfold parentWaits at hrun
  generalize hm : loneTask.run [.store 1 5 7#8, .fork 1 2] = o at hrun
  cases o with
  | done m =>
    cases hc : m.tasks 2 with
    | none => simp [hc] at hrun
    | some cur =>
      simp only [hc, Bool.and_eq_true, decide_eq_true_eq, beq_iff_eq] at hrun
      obtain ⟨⟨hreads, hfit⟩, hthere⟩ := hrun
      obtain ⟨⟨f, b⟩, hpage, hb⟩ := Option.map_eq_some_iff.mp hthere
      exact ⟨m, cur, rfl, ok_loneTask.run hm, hc, hfit, ⟨f, hpage.trans (by rw [← hb])⟩, hreads⟩
  | noMemory => simp at hrun
  | panicked p => simp at hrun
  | refaulted => simp at hrun

/-- A buffer within the first page. -/
theorem onPresentPages_first (hlim : 4096 ≤ cur.dataLimit) (h0 : mapOf m.mem (cell slot 0) ≠ none)
    (hfit : c.buffer.1 + c.buffer.2 ≤ 4096) : c.OnPresentPages m slot cur := by
  refine ⟨Nat.le_trans hfit hlim, ?_⟩
  intro k hk
  have hpage : (c.buffer.1 + k) / 4096 = 0 := by omega
  rw [hpage]
  exact h0

/-- After the fork, `sys_time` of the child onto the shared page. -/
theorem kernel_stores_private_forked :
    ∃ m cur, loneTask.run [.store 1 5 7#8, .fork 1 2] = .done m ∧ m.tasks 2 = some cur ∧
      (UserCall.time 4 9#32).OnPresentPages m 2 cur ∧
      (UserCall.time 4 9#32).RespectsCow m 2 cur := by
  obtain ⟨m, cur, hrun, ok, hcur, hlim, ⟨f, hpage⟩, -⟩ := loneTask_forked
  have hbuf : (UserCall.time 4 9#32).OnPresentPages m 2 cur :=
    onPresentPages_first hlim (by simp [hpage]) (by decide)
  refine ⟨m, cur, hrun, hcur, hbuf, ?_⟩
  exact (kernel_stores_private ok hcur (.time 4 9#32) hbuf).mpr fun fildes h => (by cases h)

/-- The child's `sys_pipe` onto the shared page overwrites what the parent has
stored there. -/
theorem sys_pipe_changes_parent :
    ∃ m cur, loneTask.run [.store 1 5 7#8, .fork 1 2] = .done m ∧
      m.Ok (firstFrame 0x400000) (endFrame 0x400000 0x1000000) (fun _ => 0) ∧
      m.tasks 2 = some cur ∧
      (UserCall.pipe 4 (some (3#32, 4#32))).OnPresentPages m 2 cur ∧
      parentReads m cur = some (some 7#8, some 0#8) ∧
      ¬ (UserCall.pipe 4 (some (3#32, 4#32))).RespectsCow m 2 cur := by
  obtain ⟨m, cur, hrun, ok, hcur, hlim, ⟨f, hpage⟩, hreads⟩ := loneTask_forked
  refine ⟨m, cur, hrun, ok, hcur, onPresentPages_first hlim (by simp [hpage]) (by decide), hreads, ?_⟩
  intro hresp
  have hwp : wp (putFs cur 4 (longBytes 3#32 ++ longBytes 4#32)) _ _ m.mem := hresp
  unfold parentReads at hreads
  unfold wp at hwp
  split at hreads
  · next log s hput =>
    rw [hput] at hwp
    have hsame := hwp.2 1 5 (by decide) (by decide) (by decide) (by decide)
    rw [hsame] at hreads
    have h := congrArg Prod.fst (Option.some.inj hreads)
    have h' := congrArg Prod.snd (Option.some.inj hreads)
    dsimp only at h h'
    rw [h] at h'
    cases h'
  · cases hreads

end Linux011.Mm
