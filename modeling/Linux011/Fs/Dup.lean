import Linux011.Fs.Protect
import Mathlib.Tactic.IntervalCases

/-!
# `sys_dup2`

`sys_dup2` closes `newfd` before `dupfd` looks at `oldfd`. Where `oldfd` is not
open, or is `newfd` itself, the file at `newfd` is gone when the error is found, and a caller that
checks the result has lost it all the same.

* `close_run`, `dupfd_run` — the two halves;
* `dup2_atomic_iff` — where all or nothing is done.
-/

namespace Linux011.Fs.Dup

open Linux011.Lib Linux011.Fs.OpenFile

/-! ## All or nothing -/

/-- An inode after `iput`, if it is still there. -/
def put (i : Inode) : Option Inode :=
  if i.count = 1 ∧ (i.pipe = true ∨ i.dev ≠ 0 ∧ i.nlinks = 0) then none else some { i with count := i.count - 1 }

/-- One descriptor of the file fewer; the inode goes with the last. -/
def release (s : State) (f : Nat) : State where
  inodes :=
    if (s.files f).count = 1 then
      Function.update s.inodes (s.files f).inode ((s.inodes (s.files f).inode).bind put)
    else s.inodes
  files  := Function.update s.files f { s.files f with count := (s.files f).count - 1 }
  tasks  := s.tasks

/-- `newfd` is a descriptor of the file of `oldfd`; the one it had is released once. -/
structure Duplicated (nr : Nat) (t : Task) (oldfd newfd : Nat) (s s' : State) : Prop where
  task   : ∃ t', s'.tasks = Function.update s.tasks nr (some t') ∧
    t'.filp = Function.update t.filp newfd (t.filp oldfd) ∧ ∀ fd, fd ≠ newfd → t'.closeOnExec fd = t.closeOnExec fd
  counts : ∀ f, (s'.files f).count + (if t.filp newfd = some f then 1 else 0) =
    (s.files f).count + (if t.filp oldfd = some f then 1 else 0)
  inodes : s'.inodes = (t.filp newfd).elim s.inodes fun f => (release s f).inodes

/-- The descriptors, their bits and the counts are as before. -/
structure Unchanged (nr : Nat) (t : Task) (s s' : State) : Prop where
  task   : ∃ t', s'.tasks nr = some t' ∧ t'.filp = t.filp ∧ t'.closeOnExec = t.closeOnExec
  counts : ∀ f, (s'.files f).count = (s.files f).count

/-- A duplicate, or an error and nothing else. -/
def Atomic (nr : Nat) (t : Task) (oldfd newfd : Nat) (s : State) (ret : Int) (s' : State) : Prop :=
  (ret = newfd ∧ (t.filp oldfd).isSome = true ∧ if oldfd = newfd then s' = s else Duplicated nr t oldfd newfd s s') ∨
    (ret < 0 ∧ Unchanged nr t s s')

/-- The file of a descriptor is counted, and so is the inode of a file in use. -/
structure Counted (t : Task) (s : State) : Prop where
  files  : ∀ fd f, fd < nrOpen → t.filp fd = some f → 0 < (s.files f).count
  inodes : ∀ f i, 0 < (s.files f).count → s.inodes (s.files f).inode = some i → 0 < i.count

/-- `oldfd` is open. -/
def Open (t : Task) (fd : Nat) : Prop := fd < nrOpen ∧ (t.filp fd).isSome = true

variable {nr : Nat} {t : Task} {s s' : State} {fd oldfd newfd f : Nat}

/-! ## The two halves -/

theorem iput_run {id : Nat} (h : ∀ i, s.inodes id = some i → 0 < i.count) :
    wp (iput id) (fun _ s' => s' = { s with inodes := Function.update s.inodes id ((s.inodes id).bind put) })
      (fun _ _ => False) s := by
  unfold iput
  rw [wp_bind, wp_get]
  cases hi : s.inodes id with
  | none =>
    have hsame : Function.update s.inodes id none = s.inodes := hi ▸ Function.update_eq_self id s.inodes
    simp [hsame]
  | some i =>
    have hpos := h i hi
    simp only [wp_ite, wp_throw, wp_setInode, Option.bind_some, put]
    refine ⟨fun h0 => absurd h0 (by omega), fun _ => ⟨fun hpipe => ?_, fun hpipe => ?_⟩⟩
    · by_cases hlast : i.count = 1 <;> simp [hpipe, hlast]
    · refine ⟨fun hdev => by simp [hpipe, hdev], fun hdev => ⟨fun hmany => ?_, fun hmany => ⟨fun hlinks => ?_, fun hlinks => ?_⟩⟩⟩
      · rw [if_neg fun h => absurd h.1 (by omega)]
      · rw [if_pos ⟨by omega, Or.inr ⟨hdev, hlinks⟩⟩]
      · rw [if_neg fun h => h.2.elim hpipe fun h => hlinks h.2]

/-- The task without `fd`. -/
def closed (t : Task) (fd : Nat) : Task :=
  { t with closeOnExec := Function.update t.closeOnExec fd false, filp := Function.update t.filp fd none }

/-- `sys_close` releases the file, if there is one, and clears the bit in any case. -/
theorem close_run (nr : Nat) (C : Counted t s) (hfd : fd < nrOpen) :
    wp (sysClose nr t fd) (fun _ s' => s' = { (t.filp fd).elim s (release s) with
      tasks := Function.update s.tasks nr (some (closed t fd)) }) (fun _ _ => False) s := by
  unfold sysClose closed
  rw [wp_ite]
  refine ⟨fun h => absurd hfd (by omega), fun _ => ?_⟩
  rw [wp_bind, wp_setTask]
  cases hf : t.filp fd with
  | none =>
    have hsame : Function.update t.filp fd none = t.filp := hf ▸ Function.update_eq_self fd t.filp
    simp [hsame]
  | some f =>
    have hpos := C.files fd f hfd hf
    simp only [wp_bind, wp_setTask, wp_get, wp_ite, wp_throw, wp_setFile, Function.update_idem]
    refine ⟨fun h0 => absurd h0 (by omega), fun _ => ⟨fun hmany => ?_, fun hlast => ?_⟩⟩
    · simp [release, show (s.files f).count ≠ 1 by omega]
    · have hone : (s.files f).count = 1 := by omega
      refine wp_mono (iput_run fun i hi => C.inodes f i hpos hi) ?_ (fun _ _ h => h)
      rintro _ _ rfl
      simp [release, hone]

theorem dupfd_bad {arg : Nat} (h : ¬ Open t fd) : dupfd nr t fd arg s = .ok (-ebadf) s := by
  unfold dupfd
  by_cases hfd : fd ≥ nrOpen
  · rw [if_pos hfd]
    rfl
  rw [if_neg hfd]
  cases hf : t.filp fd with
  | none => rfl
  | some f => exact absurd ⟨by omega, by rw [hf]; rfl⟩ h

theorem dupfd_range {arg : Nat} (harg : nrOpen ≤ arg) : ∃ e < 0, dupfd nr t fd arg s = .ok e s := by
  by_cases hopen : Open t fd
  · obtain ⟨hfd, hf⟩ := hopen
    obtain ⟨f, hf⟩ := Option.isSome_iff_exists.mp hf
    refine ⟨-einval, by decide, ?_⟩
    unfold dupfd
    rw [if_neg (by omega), hf]
    dsimp only
    rw [if_pos harg]
    rfl
  · exact ⟨-ebadf, by decide, dupfd_bad hopen⟩

/-- The task with a duplicate at `k`. -/
def duplicated (t : Task) (k f : Nat) : Task :=
  { t with closeOnExec := Function.update t.closeOnExec k false, filp := Function.update t.filp k (some f) }

/-- One descriptor of the file more. -/
def share (files : Nat → File) (f : Nat) : Nat → File :=
  Function.update files f { files f with count := (files f).count + 1 }

/-- The descriptor asked for is free: it is the one that the search finds. -/
theorem dupfd_run {arg : Nat} (hfd : fd < nrOpen) (hf : t.filp fd = some f) (harg : arg < nrOpen)
    (hfree : t.filp arg = none) :
    dupfd nr t fd arg s = .ok (arg : Int)
      { s with tasks := Function.update s.tasks nr (some (duplicated t arg f)), files := share s.files f } := by
  have hfind : (List.range nrOpen).find? (fun k => arg ≤ k ∧ (t.filp k).isNone) = some arg := by
    rw [List.find?_range_eq_some]
    refine ⟨by simp [hfree], List.mem_range.mpr harg, fun k hk => ?_⟩
    simp [Nat.not_le.mpr hk]
  unfold dupfd
  rw [if_neg (by omega), hf]
  dsimp only
  rw [if_neg (by omega), hfind]
  rfl

/-! ## The call -/

theorem open_closed : Open (closed t newfd) oldfd ↔ Open t oldfd ∧ oldfd ≠ newfd := by
  unfold Open closed
  by_cases h : oldfd = newfd
  · simp [h]
  · simp [h]

theorem dup2_range (oldfd : Nat) (hnew : nrOpen ≤ newfd) (ht : s.tasks nr = some t) (Q : Int → State → Prop)
    (E : Panic → State → Prop) : ∃ e < 0, (wp (sysDup2 nr t oldfd newfd) Q E s ↔ Q e s) := by
  obtain ⟨e, he, hrun⟩ : ∃ e < 0, dupfd nr t oldfd newfd s = .ok e s := dupfd_range hnew
  have hclose : sysClose nr t newfd s = .ok (-einval) s := by
    unfold sysClose
    rw [if_pos hnew]
    rfl
  refine ⟨e, he, ?_⟩
  unfold sysDup2
  rw [wp_bind, wp_of_ok hclose, wp_bind, wp_get, ht]
  exact wp_of_ok hrun

/-- The state in which `dupfd` is called. -/
def afterClose (nr : Nat) (t : Task) (newfd : Nat) (s : State) : State :=
  { (t.filp newfd).elim s (release s) with tasks := Function.update s.tasks nr (some (closed t newfd)) }

theorem dup2_closes (C : Counted t s) (hnew : newfd < nrOpen) (Q : Int → State → Prop) (E : Panic → State → Prop) :
    wp (sysDup2 nr t oldfd newfd) Q E s ↔
      wp (dupfd nr (closed t newfd) oldfd newfd) Q E (afterClose nr t newfd s) := by
  obtain ⟨ret, s', hclose, rfl⟩ := wp_runs (close_run nr C hnew)
  unfold sysDup2
  rw [wp_bind, wp_of_ok hclose, wp_bind, wp_get]
  dsimp only
  rw [Function.update_self]
  exact Iff.rfl

theorem afterClose_count (nr : Nat) (C : Counted t s) (hnew : newfd < nrOpen) (g : Nat) :
    ((afterClose nr t newfd s).files g).count + (if t.filp newfd = some g then 1 else 0) = (s.files g).count := by
  unfold afterClose
  cases hf : t.filp newfd with
  | none => simp
  | some f =>
    by_cases hg : g = f
    · have hpos := C.files newfd f hnew hf
      rw [hg, if_pos rfl]
      simp only [Option.elim_some, release, Function.update_self]
      omega
    · simp [release, Function.update_of_ne hg, Ne.symm hg]

theorem share_count (files : Nat → File) (f g : Nat) :
    (share files f g).count = (files g).count + if some f = some g then 1 else 0 := by
  unfold share
  by_cases hg : g = f
  · rw [hg, Function.update_self, if_pos rfl]
  · rw [Function.update_of_ne hg, if_neg fun h => hg (Option.some.inj h).symm, Nat.add_zero]

/-- `oldfd` is another open descriptor: its file is shared once more. -/
theorem dup2_done (C : Counted t s) (hnew : newfd < nrOpen) (hopen : Open t oldfd) (hne : oldfd ≠ newfd) :
    wp (sysDup2 nr t oldfd newfd) (Atomic nr t oldfd newfd s) (fun _ _ => False) s := by
  obtain ⟨hold, hsome⟩ := hopen
  obtain ⟨f, hf⟩ := Option.isSome_iff_exists.mp hsome
  have hf' : (closed t newfd).filp oldfd = some f := by
    rw [← hf]
    exact Function.update_of_ne hne ..
  rw [dup2_closes C hnew, wp_of_ok (dupfd_run hold hf' hnew (Function.update_self ..))]
  refine Or.inl ⟨rfl, hsome, ?_⟩
  rw [if_neg hne]
  refine ⟨⟨_, Function.update_idem .., ?_, fun fd hfd => ?_⟩, fun g => ?_, ?_⟩
  · rw [hf]
    exact Function.update_idem ..
  · show Function.update (Function.update t.closeOnExec newfd false) newfd false fd = _
    rw [Function.update_of_ne hfd, Function.update_of_ne hfd]
  · show (share (afterClose nr t newfd s).files f g).count + _ = _
    have hcount := afterClose_count nr C hnew g
    rw [share_count, hf]
    omega
  · cases hg : t.filp newfd with
    | none => simp [afterClose, hg]
    | some g => simp [afterClose, hg]

/-- `oldfd` is not open, or it was and has just been closed. -/
theorem dup2_lost (C : Counted t s) (hnew : newfd < nrOpen) (hbad : ¬ (Open t oldfd ∧ oldfd ≠ newfd)) :
    wp (sysDup2 nr t oldfd newfd) (Atomic nr t oldfd newfd s) (fun _ _ => False) s ↔
      t.filp newfd = none ∧ t.closeOnExec newfd = false := by
  rw [dup2_closes C hnew, wp_of_ok (dupfd_bad fun h => hbad (open_closed.mp h))]
  have htask : (afterClose nr t newfd s).tasks nr = some (closed t newfd) := Function.update_self ..
  constructor
  · rintro (⟨hret, -, -⟩ | ⟨-, U⟩)
    · have hneg : -ebadf < 0 := by decide
      omega
    · obtain ⟨t', ht', hfilp, hbits⟩ := U.task
      rw [htask] at ht'
      cases ht'
      exact ⟨by rw [← hfilp]; exact Function.update_self .., by rw [← hbits]; exact Function.update_self ..⟩
  · rintro ⟨hfree, hbit⟩
    refine Or.inr ⟨by decide, ⟨⟨_, htask, ?_, ?_⟩, fun g => ?_⟩⟩
    · show Function.update t.filp newfd none = t.filp
      rw [← hfree, Function.update_eq_self]
    · show Function.update t.closeOnExec newfd false = t.closeOnExec
      rw [← hbit, Function.update_eq_self]
    · simp [afterClose, hfree]

/-- **`sys_dup2` is atomic** exactly where `newfd` is out of range, or is free with its bit clear,
or `oldfd` is another open descriptor. Elsewhere it closes `newfd` and then fails. -/
theorem dup2_atomic_iff (ht : s.tasks nr = some t) (C : Counted t s) :
    wp (sysDup2 nr t oldfd newfd) (Atomic nr t oldfd newfd s) (fun _ _ => False) s ↔
      (nrOpen ≤ newfd ∨ (t.filp newfd = none ∧ t.closeOnExec newfd = false) ∨ Open t oldfd ∧ oldfd ≠ newfd) := by
  by_cases hnew : newfd < nrOpen
  · rw [or_iff_right (Nat.not_le.mpr hnew)]
    by_cases hopen : Open t oldfd ∧ oldfd ≠ newfd
    · exact iff_of_true (dup2_done C hnew hopen.1 hopen.2) (Or.inr hopen)
    · rw [dup2_lost C hnew hopen, or_iff_left hopen]
  · have hout : nrOpen ≤ newfd := Nat.not_lt.mp hnew
    obtain ⟨e, he, hrun⟩ := dup2_range oldfd hout ht (Atomic nr t oldfd newfd s) (fun _ _ => False)
    rw [hrun]
    exact iff_of_true (Or.inr ⟨he, ⟨t, ht, rfl, rfl⟩, fun _ => rfl⟩) (Or.inl hout)

/-- A task with a file at 0 and another one at 1. -/
def shell : Task where
  euid        := 100
  egid        := 5
  umask       := 0
  leader      := false
  tty         := none
  filp        := fun fd => if fd < 2 then some fd else none
  closeOnExec := fun _ => false
  pwd         := 9
  root        := 9
  executable  := none

def twoFiles : State where
  inodes := fun id => if id < 2 then some ⟨0o100644, 100, 5, 1, 0x301, 0, 1, false, 0, fun _ => 0#8⟩ else none
  files  := fun f => if f < 2 then ⟨0o100644, 2, 1, f, 0⟩ else ⟨0, 0, 0, 0, 0⟩
  tasks  := fun nr => if nr = 1 then some shell else none

theorem counted_twoFiles : Counted shell twoFiles := by
  constructor
  · intro fd f _ hf
    have hlt : fd < 2 ∧ fd = f := by simpa [shell] using hf
    have hfile : twoFiles.files f = ⟨0o100644, 2, 1, f, 0⟩ := if_pos (by omega)
    rw [hfile]
    exact Nat.one_pos
  · intro f i _ hi
    by_cases hf : f < 2
    · interval_cases f <;> cases hi <;> decide
    · simp only [twoFiles, if_neg hf] at hi
      cases hi
      decide

/-- `dup2(5,1)` where 5 is not open: `EBADF`, and the file at 1 is closed. -/
theorem dup2_loses : twoFiles.tasks 1 = some shell ∧
    wp (sysDup2 1 shell 5 1) (fun ret s' => ret = -ebadf ∧ (s'.tasks 1).map (fun t => t.filp 1) = some none ∧
      (s'.files 1).count = 0) (fun _ _ => False) twoFiles ∧
    ¬ wp (sysDup2 1 shell 5 1) (Atomic 1 shell 5 1 twoFiles) (fun _ _ => False) twoFiles := by
  refine ⟨rfl, by decide, ?_⟩
  rw [dup2_lost counted_twoFiles (by decide) fun h => absurd h.1.2 (by decide)]
  exact fun h => absurd h.1 (by decide)

/-- `dup2(0,1)`: 1 is a second descriptor of the file at 0. -/
theorem dup2_shares : twoFiles.tasks 1 = some shell ∧ Counted shell twoFiles ∧
    wp (sysDup2 1 shell 0 1) (Atomic 1 shell 0 1 twoFiles) (fun _ _ => False) twoFiles := by
  refine ⟨rfl, counted_twoFiles, ?_⟩
  rw [dup2_atomic_iff rfl counted_twoFiles]
  exact Or.inr (Or.inr ⟨⟨by decide, rfl⟩, by decide⟩)

end Linux011.Fs.Dup
