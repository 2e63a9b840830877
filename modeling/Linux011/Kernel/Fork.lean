import Linux011.Kernel.Sleep
import Linux011.Mm.ForkFailed

/-!
# `copy_process` — a fork that fails

`kernel/fork.c`. The child gets a page for its task structure, a copy of it, and copies
of the page tables of its parent, in this order; there may be no page for any of them.

* `copyProcess_spec` — what is left then, for every state in which a fork is made;
* `fork_failed` — nothing that anybody can tell: the counts, the task table and what all
  tasks read are as before, and all stores that follow do the same.

The registers of the coprocessor are in `Kernel/Math.lean`.
-/

namespace Linux011.Kernel.Fork

open Linux011.Lib Linux011.Mm
open Linux011.Kernel.Sleep (TaskState)

/-! ## The kernel -/

abbrev Word := BitVec 32

def nrOpen : Nat := 20
def eagain : Int := 11

/-- `struct tss_struct`, what `fork` sets in it. -/
structure Tss where
  backLink    : Word
  esp0        : Word
  ss0         : Word
  eip         : Word
  eflags      : Word
  eax         : Word
  ecx         : Word
  edx         : Word
  ebx         : Word
  esp         : Word
  ebp         : Word
  esi         : Word
  edi         : Word
  es          : Word
  cs          : Word
  ss          : Word
  ds          : Word
  fs          : Word
  gs          : Word
  ldt         : Word
  traceBitmap : Word

/-- `struct task_struct`, what `fork` reads or sets, and the page that it is in. Files
and inodes are named by their place in `file_table` and `inode_table`. -/
structure Task where
  page       : Nat
  state      : TaskState
  counter    : Int
  priority   : Int
  signal     : Word
  startCode  : Nat
  pid        : Int
  father     : Int
  leader     : Int
  alarm      : Int
  utime      : Int
  stime      : Int
  cutime     : Int
  cstime     : Int
  startTime  : Int
  pwd        : Option Nat
  root       : Option Nat
  executable : Option Nat
  filp       : Nat → Option Nat
  ldt        : Ldt
  tss        : Tss

/-- The arguments of `copy_process`: the registers that `system_call` has pushed. -/
structure Regs where
  ebp    : Word
  edi    : Word
  esi    : Word
  gs     : Word
  ebx    : Word
  ecx    : Word
  edx    : Word
  fs     : Word
  es     : Word
  ds     : Word
  eip    : Word
  cs     : Word
  eflags : Word
  esp    : Word
  ss     : Word

/-- An entry of the GDT: a TSS or an LDT, in the task structure in a page. -/
inductive Desc
  | null
  | tss (page : Nat)
  | ldt (page : Nat)
  deriving DecidableEq, Repr

/-- `fCount` and `iCount` hold unsigned shorts. -/
structure State where
  mem     : Mem
  task    : Nat → Option Task
  fCount  : Nat → Nat
  iCount  : Nat → Nat
  gdt     : Nat → Desc
  lastPid : Int
  jiffies : Int

abbrev KM := EStateM Stop State

/-- A routine of the memory manager. -/
def mm {α : Type} (x : MM α) : KM α := fun k =>
  match x k.mem with
  | .ok r s => .ok r { k with mem := s }
  | .error e s => .error e { k with mem := s }

@[simp] theorem wp_mm {α : Type} (x : MM α) (Q : α → State → Prop) (E : Stop → State → Prop)
    (k : State) : wp (mm x) Q E k ↔
      wp x (fun r s => Q r { k with mem := s }) (fun e s => E e { k with mem := s }) k.mem := by
  unfold wp mm
  cases x k.mem with
  | ok r s => exact Iff.rfl
  | error e s => exact Iff.rfl

/-! ## copy_process -/

/-- `w & 0xffff`. -/
def low16 (w : Word) : Word := w &&& 0xffff#32

/-- `_LDT(n)`, with `FIRST_LDT_ENTRY` 5. -/
def ldtSelector (n : Nat) : Word := BitVec.ofNat 32 ((n <<< 4) + (5 <<< 3))

/-- `*p = *current`, and what is set in it up to `copy_mem`. -/
def Task.child (current : Task) (k : State) (p nr : Nat) (r : Regs) : Task :=
  { current with
    page      := p
    state     := .uninterruptible
    pid       := k.lastPid
    father    := current.pid
    counter   := current.priority
    signal    := 0#32
    alarm     := 0
    leader    := 0
    utime     := 0
    stime     := 0
    cutime    := 0
    cstime    := 0
    startTime := k.jiffies
    tss := {
      backLink    := 0#32
      esp0        := BitVec.ofNat 32 (4096 + p)
      ss0         := 0x10#32
      eip         := r.eip
      eflags      := r.eflags
      eax         := 0#32
      ecx         := r.ecx
      edx         := r.edx
      ebx         := r.ebx
      esp         := r.esp
      ebp         := r.ebp
      esi         := r.esi
      edi         := r.edi
      es          := low16 r.es
      cs          := low16 r.cs
      ss          := low16 r.ss
      ds          := low16 r.ds
      fs          := low16 r.fs
      gs          := low16 r.gs
      ldt         := ldtSelector nr
      traceBitmap := 0x80000000#32 } }

/-- Task `nr` is `t`. The words of the structure, as the compiler lays it out, are
`image t`. -/
def setTask (image : Task → List Word) (nr : Nat) (t : Task) : KM Unit :=
  modify fun k => { k with
    task := Function.update k.task nr (some t)
    mem  := k.mem.overlay (t.page / 4096) (image t) }

/-- `f->f_count++`, if there is a file. -/
def grabFile (f : Option Nat) : KM Unit :=
  modify fun k =>
    match f with
    | some f => { k with fCount := Function.update k.fCount f ((k.fCount f + 1) % 65536) }
    | none => k

/-- `inode->i_count++`, if there is an inode. -/
def grabInode (inode : Option Nat) : KM Unit :=
  modify fun k =>
    match inode with
    | some i => { k with iCount := Function.update k.iCount i ((k.iCount i + 1) % 65536) }
    | none => k

/-- `copy_process`. The segments that `copy_mem` sets in the child are set when it has
returned. -/
def copyProcess (image : Task → List Word) (current : Task) (nr : Nat) (r : Regs) : KM Int := do
  let p ← mm getFreePage
  if p = 0 then
    return -eagain
  else
    let child := current.child (← get) p nr r
    setTask image nr child
    let (error, ldt) ← mm (copyMem nr current.ldt)
    if error ≠ 0 then
      modify fun k => { k with task := Function.update k.task nr none }
      mm (freePage p)
      return -eagain
    else
      let child := { child with ldt := ldt, startCode := nr * 0x4000000 }
      setTask image nr child
      upTo nrOpen fun i => grabFile (child.filp i)
      grabInode current.pwd
      grabInode current.root
      grabInode current.executable
      modify fun k => { k with
        gdt := Function.update (Function.update k.gdt ((nr <<< 1) + 4) (.tss p)) ((nr <<< 1) + 5) (.ldt p) }
      setTask image nr { child with state := .running }
      return (← get).lastPid

/-! ## When a fork is made -/

/-- The tasks that have page tables. -/
def State.machine (k : State) : Machine where
  mem   := k.mem
  tasks := fun slot => if slot = 0 then none else (k.task slot).map Task.ldt

/-- The kernel, when `find_empty_process` has returned. A slot without a task has no page
tables, and a directory entry that is not present is clear: `head.s` clears them all, and
what is stored there is 0 or the address of a table `| 7`. -/
structure State.Ok (lo hi : Nat) (held : Nat → Nat) (k : State) : Prop where
  acc    : Acc lo hi k.mem held
  live   : ∀ slot t, k.task slot = some t → t.ldt.InSlot slot
  within : ∀ d, tblOf k.mem d ≠ none → k.task (d / 16) ≠ none
  clear  : ∀ d, 16 ≤ d → d < 1024 → present (k.mem.phys d) = false → k.mem.phys d = 0#32
  pid    : 0 < k.lastPid

/-- The addresses of a task: those of its slot, but 640 KB for task 0. -/
def Address (slot off : Nat) : Prop :=
  slot < 64 ∧ off < 0x4000000 ∧ (slot = 0 → off < 0xA0000)

/-- What all tasks read is the same. -/
def SameReads (tasks : Nat → Option Ldt) (s s' : Mem) : Prop :=
  ∀ slot off, Address slot off → Machine.read ⟨s', tasks⟩ slot off = Machine.read ⟨s, tasks⟩ slot off

/-- A fork from slot `a` into slot `nr` has changed `k` to `k'`, and nobody can tell. -/
structure Untouched (lo : Nat) (held : Nat → Nat) (a nr : Nat) (k k' : State) : Prop where
  memMap : k'.mem.memMap = k.mem.memMap
  task   : k'.task nr = none ∧ k'.task = k.task
  dir    : ∀ d, d / 16 = nr → k'.mem.phys d = 0#32
  files  : k'.fCount = k.fCount ∧ k'.iCount = k.iCount ∧ k'.gdt = k.gdt
  kernel : ∀ w, (w / 1024 < lo ∨ 0 < held (w / 1024)) → k'.mem.phys w = k.mem.phys w
  bits   : ∀ x, mapOf k'.mem x = mapOf k.mem x ∨ x.1 / 16 = a ∧ ∃ f,
    mapOf k.mem x = some (f, true) ∧ mapOf k'.mem x = some (f, false) ∧ k'.mem.memMap (f - 256) = 1
  reads  : SameReads k.machine.tasks k.mem k'.mem
  writes : ∀ l : List (Nat × Nat × Byte), Agree
    (fun _ s _ s' => s'.memMap = s.memMap ∧ SameReads k.machine.tasks s s')
    (stores k.machine.tasks l) (stores k.machine.tasks l) k.mem k'.mem

variable {lo hi a nr : Nat} {held : Nat → Nat} {k : State} {s t : Mem}

/-- The slot of the child, before. -/
theorem State.Ok.empty (ok : k.Ok lo hi held) (hnr : 1 ≤ nr) (hnr' : nr < 64)
    (hfree : k.task nr = none) {d : Nat} (hd : d / 16 = nr) :
    tblOf k.mem d = none ∧ k.mem.phys d = 0#32 := by
  have hnone : tblOf k.mem d = none := by
    by_contra hne
    exact ok.within d hne (hd ▸ hfree)
  have habsent := (tblOf_eq_none (mem_dirs.mpr (by omega))).mp hnone
  exact ⟨hnone, ok.clear d (by omega) (by omega) habsent⟩

theorem trace_refl (hempty : ∀ d, d / 16 = nr → s.phys d = 0#32) : Trace lo hi a nr s s :=
  ⟨rfl, fun _ _ => rfl, fun d hd => Or.inl (hempty d hd), fun _ _ => Or.inr (Or.inl rfl)⟩

/-! ## Nobody can tell -/

/-- Task 0 reads the pages below 1 MB, through a page table that is not written. -/
theorem read_slot_zero (A : Acc lo hi s held) (R : Alike lo hi s t) (tasks : Nat → Option Ldt)
    {off : Nat} (ho : off < 0xA0000) : Machine.read ⟨t, tasks⟩ 0 off = Machine.read ⟨s, tasks⟩ 0 off := by
  have hlow := A.low
  have hdir : dirEntry (0 * 0x4000000 + off) = 0 := by
    rw [dirEntry_eq]
    omega
  have hindex : tableIndex (0 * 0x4000000 + off) = off / 4096 := by
    rw [tableIndex_eq]
    omega
  have htable : pageAddr (s.phys 0) / 4 = 1024 := by
    rw [pageAddr_eq, A.boot.1]
  have hd : t.phys 0 = s.phys 0 := R.low A (by omega)
  have hw : t.phys (1024 + off / 4096) = s.phys (1024 + off / 4096) := R.low A (by omega)
  have hframe := A.boot.2 (off / 4096) (by omega)
  unfold Machine.read Mm.translate
  dsimp only
  rw [hdir, hd, htable, hindex, hw]
  generalize s.phys (1024 + off / 4096) = w at hframe
  by_cases hp : present (s.phys 0) = true
  · by_cases hpw : present w = true
    · have hbyte : loadByte t (pageAddr w + off % 4096) = loadByte s (pageAddr w + off % 4096) := by
        unfold loadByte
        rw [pageAddr_eq, R.low A (by omega)]
      simp [hp, hpw, hbyte]
    · simp [hp, hpw]
  · simp [hp]

theorem sameReads (A : Acc lo hi s held) (R : Alike lo hi s t) (tasks : Nat → Option Ldt) :
    SameReads tasks s t := by
  intro slot off ⟨hslot, hoff, hboot⟩
  by_cases h0 : slot = 0
  · rw [h0]
    exact read_slot_zero A R tasks (hboot h0)
  · exact R.read A tasks (Nat.pos_of_ne_zero h0) hslot hoff

/-- The kernel with its memory as a fork has left it. -/
theorem untouched (ok : k.Ok lo hi held) (hnr : 1 ≤ nr) (hnr' : nr < 64) (hfree : k.task nr = none)
    (A : Acc lo hi t held) (T : Trace lo hi a nr k.mem t) (R : Alike lo hi k.mem t)
    (hgone : ∀ d, d / 16 = nr → t.phys d = 0#32) :
    Untouched lo held a nr k { k with mem := t } where
  memMap := R.memMap
  task   := ⟨hfree, rfl⟩
  dir    := hgone
  files  := ⟨rfl, rfl, rfl⟩
  kernel := by
    intro w hw
    by_cases hlo : w / 1024 < lo
    · exact R.low ok.acc hlo
    · obtain ⟨-, -, -, htbl, -, hcnt⟩ := ok.acc.inv.of_held (hw.resolve_left hlo)
      have hlow := ok.acc.low
      rw [space_cnt (by omega)] at hcnt
      refine R.frame (fun h => ?_) (fun d hd => ?_) rfl
      · have := h.2.2
        omega
      · have := Space.tblRefs_pos (a := space k.mem held) (tblOf_eq_some.mp hd).1 hd
        omega
  bits   := lost_bits ok.acc T R hnr' hnr
  reads  := sameReads ok.acc R _
  writes := by
    intro l
    have htasks : ∀ slot cur, k.machine.tasks slot = some cur → 1 ≤ slot ∧ cur.InSlot slot := by
      intro slot cur h
      by_cases h0 : slot = 0
      · simp [State.machine, h0] at h
      · simp only [State.machine, h0, if_false, Option.map_eq_some_iff] at h
        obtain ⟨u, hu, rfl⟩ := h
        exact ⟨Nat.pos_of_ne_zero h0, ok.live slot u hu⟩
    exact agree_mono (stores_agree htasks l R ok.acc A)
      fun _ s _ s' ⟨R', A'⟩ => ⟨R'.memMap, sameReads A' R' _⟩

/-! ## Each part of copy_process -/

@[simp] theorem wp_setTask (image : Task → List Word) (n : Nat) (u : Task) (Q : Unit → State → Prop)
    (E : Stop → State → Prop) (k : State) : wp (setTask image n u) Q E k ↔ Q () { k with
      task := Function.update k.task n (some u)
      mem  := k.mem.overlay (u.page / 4096) (image u) } := Iff.rfl

/-- The page of the task, with the structure in it. -/
theorem taskPage (A : Acc lo hi s held) (T : Trace lo hi a nr s s) (hnr : nr < 64) {f : Nat}
    (hf : Free lo hi s f) (l : List Word) :
    Acc lo hi ((taken s f).overlay f l) (Function.update held f 1) ∧
      Trace lo hi a nr s ((taken s f).overlay f l) ∧
      tblOf ((taken s f).overlay f l) = tblOf s ∧
      ∀ x, shows ((taken s f).overlay f l) x = shows s x := by
  obtain ⟨A₁, htbl₁, hmap₁, hview₁⟩ := acc_taken A hf.1 hf.2.1 hf.2.2
  have hheld : 0 < Function.update held f 1 f := by
    rw [Function.update_self]
    exact Nat.one_pos
  obtain ⟨A₂, htbl₂, hshow₂⟩ := acc_overlay A₁ hheld l
  have T₂ : Trace lo hi a nr s ((taken s f).overlay f l) := by
    refine (trace_taken T A.low hnr hf).step A.low hnr rfl (fun _ _ => rfl) fun w => ?_
    by_cases hw : w / 1024 = f
    · exact Or.inl (hw ▸ hf)
    · exact Or.inr (onlyFrame_overlay f l w hw)
  exact ⟨A₂, T₂, htbl₂.trans htbl₁, fun x =>
    (hshow₂ x).trans (shows_congr (congrFun hmap₁ x) (congrFun hview₁ x))⟩

/-- The page of the task is freed. -/
theorem freeTask (A : Acc lo hi t (Function.update held a 1)) (hheld : held a = 0)
    {n m : Nat} (T : Trace lo hi n m s t) (hm : m < 64) (U : Undone m s t) :
    wp (freePage (a * 4096)) (fun _ t' => Acc lo hi t' held ∧ Trace lo hi n m s t' ∧ Undone m s t')
      (fun _ _ => False) t := by
  have hpos : 0 < Function.update held a 1 a := by
    rw [Function.update_self]
    exact Nat.one_pos
  have hmain := (A.inv.of_held hpos)
  have hback : Function.update (Function.update held a 1) a 0 = held := by
    rw [Function.update_idem, ← hheld, Function.update_eq_self]
  refine wp_mono (wp_and (freePage_held A hpos)
    (freePage_trace T A.low hm (Or.inr ⟨hmain.1, hmain.2.1⟩))) ?_ fun _ _ h => h.1
  intro _ t' ⟨⟨A', hphys⟩, T', _⟩
  rw [hback] at A'
  exact ⟨A', T', U.of_phys hphys⟩

theorem grabFile_pid (f : Option Nat) (k : State) :
    wp (grabFile f) (fun _ k' => k'.lastPid = k.lastPid) (fun _ _ => False) k := by
  unfold grabFile
  rw [wp_modify]
  cases f with
  | none => rfl
  | some f => rfl

theorem grabInode_pid (i : Option Nat) (k : State) :
    wp (grabInode i) (fun _ k' => k'.lastPid = k.lastPid) (fun _ _ => False) k := by
  unfold grabInode
  rw [wp_modify]
  cases i with
  | none => rfl
  | some i => rfl

/-- **A fork that fails leaves no trace**, and none panics. Wherever a page runs out, a
machine that is short of memory loses nothing by trying. -/
theorem fork_failed (ok : k.Ok lo hi held) {current : Task} (hcur : k.task a = some current)
    (hnr : 1 ≤ nr) (hnr' : nr < 64) (hfree : k.task nr = none) (image : Task → List Word) (r : Regs) :
    wp (copyProcess image current nr r) (fun r k' => r = -eagain → Untouched lo held a nr k k')
      (fun _ _ => False) k := by
  have A := ok.acc
  have hin := ok.live a current hcur
  have hne : nr ≠ a := by
    intro heq
    rw [heq, hcur] at hfree
    cases hfree
  have hempty : ∀ d, d / 16 = nr → tblOf k.mem d = none ∧ k.mem.phys d = 0#32 :=
    fun d hd => ok.empty hnr hnr' hfree hd
  have hclear := fun d hd => (hempty d hd).2
  -- what is traced: the tables of the child, and what was taken for it
  have T : Trace lo hi a nr k.mem k.mem := trace_refl hclear
  unfold copyProcess
  simp only [wp_bind, wp_mm]
  refine wp_mono (getFreePage_spec A) ?_ fun _ _ h => h
  intro p s₁ hp
  obtain ⟨rfl, rfl, -⟩ | ⟨f, rfl, hlo, hhi, h0, rfl, -⟩ := hp
  · -- no page for the task
    rw [if_pos rfl, wp_pure]
    exact fun _ => untouched ok hnr hnr' hfree A T (Alike.refl lo hi k.mem) hclear
  have hlow := A.low
  have hheld := (A.free_unused hlo hhi h0).2.2
  have hpage : f * 4096 / 4096 = f := Nat.mul_div_cancel f (by decide)
  rw [if_neg (by omega)]
  simp only [wp_bind, wp_get, wp_mm, wp_setTask]
  generalize hchild : current.child { k with mem := taken k.mem f } (f * 4096) nr r = child
  have hin' : child.page / 4096 = f := by
    rw [← hchild]
    exact hpage
  rw [hin']
  obtain ⟨A₂, T₂, htbl₂, hshow₂⟩ := taskPage A T hnr' ⟨hlo, hhi, h0⟩ (image child)
  have hle : ∀ g, held g ≤ Function.update held f 1 g := by
    intro g
    by_cases hg : g = f
    · rw [hg, hheld]
      exact Nat.zero_le _
    · rw [Function.update_of_ne hg]
  refine wp_mono (copyMem_trace A hle hin hnr hnr' hne (fun d hd => (hempty d hd).1) A₂ htbl₂ hshow₂ T₂)
    ?_ fun _ _ h => h
  rintro e t ⟨A₃, T₃, _, he⟩
  by_cases he0 : e.1 ≠ 0
  · -- no page for a page table
    have U := he.resolve_left he0
    rw [if_pos he0]
    simp only [wp_bind, wp_modify, wp_mm, wp_pure]
    refine wp_mono (freeTask A₃ hheld T₃ hnr' U) ?_ fun _ _ h => h
    rintro _ t' ⟨A', T', U'⟩ _
    obtain ⟨R, hgone⟩ := alike_of_undone A A' hnr' hnr T' U' hclear
    have htask : Function.update (Function.update k.task nr (some child)) nr none = k.task := by
      rw [Function.update_idem, ← hfree, Function.update_eq_self]
    rw [htask]
    exact untouched ok hnr hnr' hfree A' T' R hgone
  · -- the child runs, and its pid is no error
    rw [if_neg he0]
    simp only [wp_bind, wp_setTask]
    let I : Nat → State → Prop := fun _ k' => k'.lastPid = k.lastPid
    have hfiles : ∀ i k', i < nrOpen → I i k' →
        wp (grabFile (child.filp i)) (fun _ => I (i + 1)) (fun _ _ => False) k' := by
      intro i k' _ hpid
      exact wp_mono (grabFile_pid _ k') (fun _ _ h => h.trans hpid) fun _ _ h => h
    refine wp_mono (wp_upTo hfiles (by exact rfl)) ?_ fun _ _ h => h
    intro _ k₁ hpid₁
    refine wp_mono (grabInode_pid current.pwd k₁) ?_ fun _ _ h => h
    intro _ k₂ hpid₂
    refine wp_mono (grabInode_pid current.root k₂) ?_ fun _ _ h => h
    intro _ k₃ hpid₃
    refine wp_mono (grabInode_pid current.executable k₃) ?_ fun _ _ h => h
    intro _ k₄ hpid₄
    simp only [wp_modify, wp_get, wp_pure]
    intro hr
    have hpid := ok.pid
    have hpid₁ : k₁.lastPid = k.lastPid := hpid₁
    unfold eagain at hr
    omega

/-! ## A machine with one page -/

def noRegs : Regs :=
  ⟨0#32, 0#32, 0#32, 0#32, 0#32, 0#32, 0#32, 0#32, 0#32, 0#32, 0#32, 0#32, 0#32, 0#32, 0#32⟩

/-- `INIT_TASK`, which is not in a page of its own. -/
def firstTask : Task where
  page       := 0
  state      := .running
  counter    := 15
  priority   := 15
  signal     := 0#32
  startCode  := 0
  pid        := 0
  father     := -1
  leader     := 0
  alarm      := 0
  utime      := 0
  stime      := 0
  cutime     := 0
  cstime     := 0
  startTime  := 0
  pwd        := none
  root       := none
  executable := none
  filp       := fun _ => none
  ldt        := ⟨0, 0, 0xA0000, 0xA0000⟩
  tss        := {
    backLink := 0#32, esp0 := 0#32, ss0 := 0x10#32, eip := 0#32, eflags := 0#32, eax := 0#32
    ecx := 0#32, edx := 0#32, ebx := 0#32, esp := 0#32, ebp := 0#32, esi := 0#32, edi := 0#32
    es := 0x17#32, cs := 0x17#32, ss := 0x17#32, ds := 0x17#32, fs := 0x17#32, gs := 0x17#32
    ldt := ldtSelector 0, traceBitmap := 0x80000000#32 }

/-- Task 0 is about to make task 1, and there is one page of main memory. -/
def onePage : State where
  mem     := memInit (setupPaging fun _ => 0#32) 0x100000 0x101000
  task    := fun i => if i = 0 then some firstTask else none
  fCount  := fun _ => 0
  iCount  := fun _ => 0
  gdt     := fun i => if i = 4 then .tss 0 else if i = 5 then .ldt 0 else .null
  lastPid := 1
  jiffies := 0

theorem ok_onePage : onePage.Ok (firstFrame 0x100000) (endFrame 0x100000 0x101000) (fun _ => 0) where
  acc    := acc_memInit (booted_setupPaging _) ⟨by decide, by decide, by decide⟩
  live   := by
    intro slot t h
    by_cases h0 : slot = 0
    · simp only [onePage, h0, if_true, Option.some.injEq] at h
      subst h0 h
      constructor <;> decide
    · simp [onePage, h0] at h
  within := fun d hd => absurd (tblOf_booted (booted_setupPaging _) d) hd
  clear  := fun d h1 h2 _ => (booted_setupPaging fun _ => 0#32).slots d h1 h2
  pid    := by decide

/-- The page goes to the task structure, and there is none for the page table. -/
theorem fork_failed_onePage : ∃ k',
    copyProcess (fun _ => [1#32]) firstTask 1 noRegs onePage = .ok (-eagain) k' ∧
      Untouched (firstFrame 0x100000) (fun _ => 0) 0 1 onePage k' := by
  have hrun : (match copyProcess (fun _ => [1#32]) firstTask 1 noRegs onePage with
      | .ok r _ => r == -eagain
      | .error _ _ => false) = true := by decide +kernel
  have hok := ok_onePage
  have hcur : onePage.task 0 = some firstTask := by simp [onePage]
  have hfree : onePage.task 1 = none := by simp [onePage]
  generalize onePage = k at hrun hok hcur hfree
  have h := fork_failed hok hcur (Nat.le_refl 1) (by decide) hfree (fun _ => [1#32]) noRegs
  unfold wp at h
  split at hrun
  · next r k' hk =>
    rw [hk] at h
    have hr : r = -eagain := by simpa using hrun
    exact ⟨k', by rw [hk, hr], h hr⟩
  · cases hrun

end Linux011.Kernel.Fork
