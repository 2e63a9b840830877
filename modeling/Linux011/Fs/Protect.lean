import Mathlib.Logic.Relation
import Linux011.Fs.OpenFile

/-!
# Open files — write protection

A regular file that no task may write: every task has an effective uid other
than 0, is refused `MAY_WRITE` by `permission`, and has inherited no descriptor
open for writing. `open_namei` then grants no access mode that writes, and
neither `fcntl` nor `dup` nor `fork` changes one (`Readers`).

* `openNamei_spec` — what `open_namei` grants, and that it truncates nothing;
* `op_spec` — every call but a write through a descriptor opened for reading
  keeps the bytes, the size and the access modes;
* `write_protected` — over whole runs;
* `write_through_reader` — `sys_write` does not look at the access mode.
-/

namespace Linux011.Fs.OpenFile

open Linux011.Lib

/-! ## The protected file -/

/-- Inode `k` is `i₀`, but for the number of its users. -/
def Kept (k : Nat) (i₀ : Inode) (s : State) : Prop :=
  ∃ n, s.inodes k = some { i₀ with count := n }

/-- Every descriptor of inode `k` was opened for reading. -/
def Readers (k : Nat) (s : State) : Prop :=
  ∀ nr t fd f, s.tasks nr = some t → t.filp fd = some f → (s.files f).inode = k →
    (s.files f).flags &&& oAccmode = 0

/-- The file is kept and neither `file_table` nor a task has changed. -/
structure Quiet (k : Nat) (i₀ : Inode) (s s' : State) : Prop where
  kept  : Kept k i₀ s'
  files : s'.files = s.files
  tasks : s'.tasks = s.tasks

/-- A regular file with a link. -/
structure Linked (i₀ : Inode) : Prop where
  reg    : isReg i₀.mode = true
  pipe   : i₀.pipe = false
  nlinks : i₀.nlinks ≠ 0

variable {k : Nat} {i₀ : Inode} {s s' : State}

theorem Quiet.refl (K : Kept k i₀ s) : Quiet k i₀ s s := ⟨K, rfl, rfl⟩

theorem Quiet.trans {s₁ s₂ : State} (h : Quiet k i₀ s s₁) (h' : Quiet k i₀ s₁ s₂) :
    Quiet k i₀ s s₂ :=
  ⟨h'.kept, h'.files.trans h.files, h'.tasks.trans h.tasks⟩

theorem Readers.of_quiet (R : Readers k s) (h : Quiet k i₀ s s') : Readers k s' := by
  unfold Readers
  rw [h.files, h.tasks]
  exact R

@[simp] theorem wp_setInode (id : Nat) (i : Option Inode) (Q : Unit → State → Prop)
    (E : Panic → State → Prop) :
    wp (setInode id i) Q E s ↔ Q () { s with inodes := Function.update s.inodes id i } := Iff.rfl

@[simp] theorem wp_setFile (f : Nat) (file : File) (Q : Unit → State → Prop)
    (E : Panic → State → Prop) :
    wp (setFile f file) Q E s ↔ Q () { s with files := Function.update s.files f file } := Iff.rfl

@[simp] theorem wp_setTask (nr : Nat) (t : Task) (Q : Unit → State → Prop)
    (E : Panic → State → Prop) :
    wp (setTask nr t) Q E s ↔
      Q () { s with tasks := Function.update s.tasks nr (some t) } := Iff.rfl

/-- An inode is replaced: another one, or the file with another count. -/
theorem quiet_setInode (K : Kept k i₀ s) {id : Nat} {i : Option Inode}
    (h : id = k → ∃ n, i = some { i₀ with count := n }) :
    Quiet k i₀ s { s with inodes := Function.update s.inodes id i } := by
  refine ⟨?_, rfl, rfl⟩
  by_cases hid : id = k
  · obtain ⟨n, hn⟩ := h hid
    refine ⟨n, ?_⟩
    rw [← hid]
    simp [hn]
  · obtain ⟨n, hn⟩ := K
    refine ⟨n, ?_⟩
    simp [Function.update_of_ne (Ne.symm hid), hn]

/-- The inode with number `k`, with another count. -/
theorem Kept.recount (K : Kept k i₀ s) {id : Nat} {i : Inode} (hi : s.inodes id = some i)
    (n : Nat) : id = k → ∃ n', some { i with count := n } = some { i₀ with count := n' } := by
  rintro rfl
  obtain ⟨n', hn'⟩ := K
  rw [hi] at hn'
  refine ⟨n, ?_⟩
  rw [Option.some.inj hn']

theorem iget_spec (K : Kept k i₀ s) (id : Nat) :
    wp (iget id) (fun r s' => Quiet k i₀ s s' ∧ ∀ i, r = some i → s'.inodes id = some i)
      (fun _ _ => False) s := by
  unfold iget
  rw [wp_bind, wp_get]
  cases hi : s.inodes id with
  | none => exact ⟨Quiet.refl K, fun i h => (by cases h)⟩
  | some i =>
    simp only [wp_bind, wp_setInode, wp_pure]
    refine ⟨quiet_setInode K (K.recount hi (i.count + 1)), ?_⟩
    intro i' h
    rw [← h]
    simp

theorem iput_spec (P : Linked i₀) (K : Kept k i₀ s) (id : Nat) :
    wp (iput id) (fun _ s' => Quiet k i₀ s s') (fun _ s' => Quiet k i₀ s s') s := by
  unfold iput
  rw [wp_bind, wp_get]
  cases hi : s.inodes id with
  | none => exact Quiet.refl K
  | some i =>
    have hrec := quiet_setInode K (K.recount hi (i.count - 1))
    -- the file itself is neither a pipe nor without links
    have hother : id = k → i.pipe = false ∧ i.nlinks ≠ 0 := by
      rintro rfl
      obtain ⟨n, hn⟩ := K
      rw [hi] at hn
      rw [Option.some.inj hn]
      exact ⟨P.pipe, P.nlinks⟩
    simp only [wp_ite, wp_throw, wp_setInode]
    refine ⟨fun _ => Quiet.refl K, fun _ => ⟨fun hp => ?_, fun _ => ⟨fun _ => hrec, fun _ =>
      ⟨fun _ => hrec, fun _ => ⟨fun hn => ?_, fun _ => hrec⟩⟩⟩⟩⟩
    · refine quiet_setInode K fun hid => ?_
      rw [(hother hid).1] at hp
      cases hp
    · exact quiet_setInode K fun hid => absurd hn (hother hid).2

theorem iputAll_spec (P : Linked i₀) (ids : List Nat) :
    ∀ {s : State}, Kept k i₀ s →
      wp (iputAll ids) (fun _ s' => Quiet k i₀ s s') (fun _ s' => Quiet k i₀ s s') s := by
  induction ids with
  | nil =>
    intro s K
    exact Quiet.refl K
  | cons id ids ih =>
    intro s K
    unfold iputAll
    rw [wp_bind]
    refine wp_mono (iput_spec P K id) ?_ (fun _ _ h => h)
    intro _ s₁ h₁
    exact wp_mono (ih h₁.kept) (fun _ _ h => h₁.trans h) (fun _ _ h => h₁.trans h)

theorem igetAll_spec (ids : List Nat) :
    ∀ {s : State}, Kept k i₀ s →
      wp (igetAll ids) (fun _ s' => Quiet k i₀ s s') (fun _ _ => False) s := by
  induction ids with
  | nil =>
    intro s K
    exact Quiet.refl K
  | cons id ids ih =>
    intro s K
    unfold igetAll
    rw [wp_bind]
    refine wp_mono (iget_spec K id) ?_ (fun _ _ h => h)
    rintro _ s₁ ⟨h₁, -⟩
    exact wp_mono (ih h₁.kept) (fun _ _ h => h₁.trans h) (fun _ _ h => h)

/-! ## Opening -/

/-- Bit 1 of a mode decides about writing. -/
theorem and_two_eq {mode mask : Nat} (hm : mask &&& 2 = 2) (h : mode &&& mask &&& 7 = mask) :
    mode &&& 2 &&& 7 = 2 := by
  have h2 : mode &&& 2 &&& 7 = (mode &&& mask &&& 7) &&& 2 := by
    apply Nat.eq_of_testBit_eq
    intro b
    have hb := congrArg (fun x => x.testBit b) hm
    simp only [Nat.testBit_and] at hb ⊢
    cases hmask : mask.testBit b <;> cases hmode : mode.testBit b <;>
      cases h7 : (7 : Nat).testBit b <;> cases h2' : (2 : Nat).testBit b <;>
      simp_all
  rw [h2, h, hm]

/-- Without the right to write, only the access mode that reads is granted. -/
theorem accmode_of_permission {t : Task} {flag n : Nat} (heuid : t.euid ≠ 0)
    (hw : permission t i₀ mayWrite = false)
    (h : permission t { i₀ with count := n } (accMode flag) = true) : flag &&& oAccmode = 0 := by
  unfold permission at hw h
  dsimp only at hw h
  split at hw
  · next hdel =>
    rw [if_pos hdel] at h
    cases h
  · next hdel =>
    rw [if_neg hdel] at h
    generalize (if t.euid = i₀.uid then i₀.mode >>> 6
      else if t.egid = i₀.gid then i₀.mode >>> 3 else i₀.mode) = mode at hw h
    simp only [heuid, decide_false, Bool.or_false, decide_eq_true_eq, mayWrite] at hw h
    replace hw := of_decide_eq_false hw
    unfold accMode at h
    split at h
    · next h0 => exact h0
    · exact absurd h hw
    · exact absurd (and_two_eq (by decide) h) hw
    · exact absurd (and_two_eq (by decide) h) hw

/-- What every call of a task that may not write leaves behind, `s` before it. -/
def Grants (k : Nat) (i₀ : Inode) (flag : Nat) (s : State) (r : Except Int Nat) (s' : State) :
    Prop :=
  Quiet k i₀ s s' ∧ (r = .ok k → flag &&& oAccmode = 0)

theorem openAbsent_spec (P : Linked i₀) (K : Kept k i₀ s) (t : Task) (flag mode dir : Nat)
    (new : Option Nat) (added : Bool) :
    wp (openAbsent t flag mode dir new added) (Grants k i₀ flag s)
      (fun _ s' => Quiet k i₀ s s') s := by
  -- an error, after the directory was put
  have herr : ∀ e s₁, Quiet k i₀ s s₁ →
      wp (do iput dir; return (.error e : Except Int Nat)) (Grants k i₀ flag s)
        (fun _ s' => Quiet k i₀ s s') s₁ := by
    intro e s₁ h₁
    rw [wp_bind]
    refine wp_mono (iput_spec P h₁.kept dir) ?_ (fun _ _ h => h₁.trans h)
    intro _ s₂ h₂
    exact ⟨h₁.trans h₂, fun h => (by cases h)⟩
  unfold openAbsent
  rw [wp_bind]
  refine wp_mono (iget_spec K dir) ?_ (fun _ _ h => h.elim)
  rintro r s₁ ⟨h₁, -⟩
  cases r with
  | none => exact ⟨h₁, fun h => (by cases h)⟩
  | some d =>
    simp only [wp_ite]
    refine ⟨fun _ => herr _ s₁ h₁, fun _ => ⟨fun _ => herr _ s₁ h₁, fun _ => ?_⟩⟩
    cases new with
    | none => exact herr _ s₁ h₁
    | some id =>
      simp only [wp_bind, wp_get]
      rw [wp_ite]
      refine ⟨fun _ => herr _ s₁ h₁, fun hfree => ?_⟩
      -- a free inode number is not that of the file
      have hid : id ≠ k := by
        rintro rfl
        obtain ⟨n, hn⟩ := h₁.kept
        rw [hn] at hfree
        exact hfree rfl
      have hset : ∀ i, Quiet k i₀ s { s₁ with inodes := Function.update s₁.inodes id i } :=
        fun i => h₁.trans (quiet_setInode h₁.kept fun h => absurd h hid)
      rw [wp_ite]
      constructor
      · intro _
        rw [wp_bind, wp_setInode, wp_bind]
        have h₂ := hset
          (some { newInode t d.dev with uid := t.euid, mode := mode })
        refine wp_mono (iput_spec P h₂.kept dir) ?_ (fun _ _ h => h₂.trans h)
        intro _ s₃ h₃
        exact ⟨h₂.trans h₃, fun h => absurd (Except.ok.inj h) hid⟩
      · intro _
        rw [wp_bind, wp_setInode, wp_bind]
        have h₂ := hset
          (some { newInode t d.dev with uid := t.euid, mode := mode, nlinks := 0 })
        refine wp_mono (iput_spec P h₂.kept id) ?_ (fun _ _ h => h₂.trans h)
        intro _ s₃ h₃
        exact herr _ s₃ (h₂.trans h₃)

theorem openEntry_spec (P : Linked i₀) (K : Kept k i₀ s) {t : Task} (heuid : t.euid ≠ 0)
    (hw : permission t i₀ mayWrite = false) {flag : Nat}
    (htrunc : flag &&& oTrunc ≠ 0 → flag &&& oAccmode ≠ 0) (dir inr : Nat) :
    wp (openEntry t flag dir inr) (Grants k i₀ flag s) (fun _ s' => Quiet k i₀ s s') s := by
  unfold openEntry
  rw [wp_bind]
  refine wp_mono (iget_spec K dir) ?_ (fun _ _ h => h.elim)
  rintro r s₁ ⟨h₁, -⟩
  cases r with
  | none => exact ⟨h₁, fun h => (by cases h)⟩
  | some d =>
    simp only [wp_bind]
    refine wp_mono (iput_spec P h₁.kept dir) ?_ (fun _ _ h => h₁.trans h)
    intro _ s₂ h₂
    replace h₂ := h₁.trans h₂
    rw [wp_ite]
    refine ⟨fun _ => ⟨h₂, fun h => (by cases h)⟩, fun _ => ?_⟩
    rw [wp_bind]
    refine wp_mono (iget_spec h₂.kept inr) ?_ (fun _ _ h => h.elim)
    rintro r s₃ ⟨h₃, hinr⟩
    replace h₃ := h₂.trans h₃
    cases r with
    | none => exact ⟨h₃, fun h => (by cases h)⟩
    | some inode =>
      have hi := hinr inode rfl
      simp only [wp_ite]
      constructor
      · intro _
        rw [wp_bind]
        refine wp_mono (iput_spec P h₃.kept inr) ?_ (fun _ _ h => h₃.trans h)
        intro _ s₄ h₄
        exact ⟨h₃.trans h₄, fun h => (by cases h)⟩
      · intro hok
        -- what is granted on the file itself
        have hacc : inr = k → flag &&& oAccmode = 0 := by
          rintro rfl
          obtain ⟨n, hn⟩ := h₃.kept
          rw [hi] at hn
          have hperm := (not_or.mp hok).2
          rw [Option.some.inj hn] at hperm
          exact accmode_of_permission heuid hw (by simpa using hperm)
        constructor
        · intro ht
          rw [wp_bind, wp_setInode, wp_pure]
          refine ⟨h₃.trans (quiet_setInode h₃.kept ?_), fun h => hacc (Except.ok.inj h)⟩
          exact fun h => absurd (hacc h) (htrunc ht)
        · intro _
          exact ⟨h₃, fun h => hacc (Except.ok.inj h)⟩

/-- **What `open_namei` grants** to a task that may not write the file: nothing
but reading, and the file is not truncated. -/
theorem openNamei_spec (P : Linked i₀) (K : Kept k i₀ s) {t : Task} (heuid : t.euid ≠ 0)
    (hw : permission t i₀ mayWrite = false) (flag mode : Nat) (found : Lookup) :
    wp (openNamei t flag mode found) (Grants k i₀ flag s) (fun _ s' => Quiet k i₀ s s') s := by
  unfold openNamei
  dsimp only
  generalize hf : (if flag &&& oTrunc ≠ 0 ∧ flag &&& oAccmode = 0 then flag ||| oWronly
    else flag) = flag'
  -- the flags `open_namei` goes on with
  have hacc : flag' &&& oAccmode = 0 → flag &&& oAccmode = 0 := by
    rw [← hf]
    split
    · next h => exact fun _ => h.2
    · exact id
  have htrunc : flag' &&& oTrunc ≠ 0 → flag' &&& oAccmode ≠ 0 := by
    rw [← hf]
    split
    · next h =>
      intro _
      rw [Nat.and_or_distrib_right, h.2]
      decide
    · next h => exact fun ht ha => h ⟨ht, ha⟩
  have hgrant : ∀ r s', Grants k i₀ flag' s r s' → Grants k i₀ flag s r s' :=
    fun r s' h => ⟨h.1, fun hr => hacc (h.2 hr)⟩
  cases found with
  | noDir => exact ⟨Quiet.refl K, fun h => (by cases h)⟩
  | dir dir =>
    simp only [wp_bind]
    refine wp_mono (iget_spec K dir) ?_ (fun _ _ h => h.elim)
    rintro r s₁ ⟨h₁, -⟩
    cases r with
    | none => exact ⟨h₁, fun h => (by cases h)⟩
    | some d =>
      simp only [wp_ite]
      constructor
      · intro h0
        refine ⟨h₁, fun _ => hacc ?_⟩
        have h3 : flag' &&& (oAccmode ||| oCreat ||| oTrunc) &&& oAccmode = flag' &&& oAccmode := by
          rw [Nat.and_assoc]
          rfl
        rw [← h3, h0]
        rfl
      · intro _
        rw [wp_bind]
        refine wp_mono (iput_spec P h₁.kept dir) ?_ (fun _ _ h => h₁.trans h)
        intro _ s₂ h₂
        exact ⟨h₁.trans h₂, fun h => (by cases h)⟩
  | absent dir new added =>
    exact wp_mono (openAbsent_spec P K t flag' _ dir new added) hgrant (fun _ _ h => h)
  | entry dir inr =>
    exact wp_mono (openEntry_spec P K heuid hw htrunc dir inr) hgrant (fun _ _ h => h)

/-! ## Descriptors -/

/-- The file is kept, and who has it open may read only. -/
structure Guarded (k : Nat) (i₀ : Inode) (s : State) : Prop where
  kept    : Kept k i₀ s
  readers : Readers k s

theorem Guarded.of_quiet (G : Guarded k i₀ s) (h : Quiet k i₀ s s') : Guarded k i₀ s' :=
  ⟨h.kept, G.readers.of_quiet h⟩

/-- The descriptors a task has, or gets from another one. -/
theorem guarded_setTask (nr : Nat) (t : Task) (G : Guarded k i₀ s)
    (h : ∀ fd f, t.filp fd = some f → (s.files f).inode = k →
      (s.files f).flags &&& oAccmode = 0) :
    Guarded k i₀ { s with tasks := Function.update s.tasks nr (some t) } := by
  refine ⟨G.kept, ?_⟩
  intro nr' t' fd f ht hfd hk
  dsimp only at ht hk ⊢
  by_cases hnr : nr' = nr
  · rw [hnr, Function.update_self] at ht
    cases ht
    exact h fd f hfd hk
  · rw [Function.update_of_ne hnr] at ht
    exact G.readers nr' t' fd f ht hfd hk

/-- A file is replaced by one that is not the file, or that is read. -/
theorem guarded_setFile (G : Guarded k i₀ s) {f : Nat} {file : File}
    (h : file.inode = k → file.flags &&& oAccmode = 0) :
    Guarded k i₀ { s with files := Function.update s.files f file } := by
  refine ⟨G.kept, ?_⟩
  intro nr t fd g ht hfd hk
  dsimp only at ht hk ⊢
  by_cases hg : g = f
  · rw [hg, Function.update_self] at hk ⊢
    exact h hk
  · rw [Function.update_of_ne hg] at hk ⊢
    exact G.readers nr t fd g ht hfd hk

/-- A change of `file_table` that keeps inodes and flags. -/
theorem guarded_files (files : Nat → File) (G : Guarded k i₀ s)
    (hi : ∀ f, (files f).inode = (s.files f).inode)
    (hf : ∀ f, (files f).flags = (s.files f).flags) :
    Guarded k i₀ { s with files := files } := by
  refine ⟨G.kept, ?_⟩
  intro nr t fd g ht hfd hk
  dsimp only at ht hk ⊢
  rw [hf]
  rw [hi] at hk
  exact G.readers nr t fd g ht hfd hk

theorem guarded_sameFile (f : Nat) (file : File) (G : Guarded k i₀ s)
    (hi : file.inode = (s.files f).inode) (hf : file.flags = (s.files f).flags) :
    Guarded k i₀ { s with files := Function.update s.files f file } := by
  refine guarded_files _ G ?_ ?_
  · intro g
    by_cases hg : g = f
    · rw [hg, Function.update_self, hi]
    · rw [Function.update_of_ne hg]
  · intro g
    by_cases hg : g = f
    · rw [hg, Function.update_self, hf]
    · rw [Function.update_of_ne hg]

variable {nr : Nat} {t : Task}

theorem openTty_filp {t t' : Task} {inode : Inode} (h : openTty t inode = some t') :
    t'.filp = t.filp := by
  unfold openTty at h
  split at h
  · split at h
    · split at h <;> (cases h; rfl)
    · split at h
      · cases h
      · cases h
        rfl
  · cases h
    rfl

theorem sysOpen_spec (P : Linked i₀) (G : Guarded k i₀ s) (ht : s.tasks nr = some t)
    (heuid : t.euid ≠ 0) (hw : permission t i₀ mayWrite = false) (flag mode : Nat)
    (found : Lookup) :
    wp (sysOpen nr t flag mode found) (fun _ s' => Guarded k i₀ s')
      (fun _ s' => Guarded k i₀ s') s := by
  have hown := fun fd f hfd hk => G.readers nr t fd f ht hfd hk
  unfold sysOpen
  dsimp only
  cases (List.range nrOpen).find? fun fd => (t.filp fd).isNone with
  | none => exact G
  | some fd =>
    -- the task with the descriptor unmarked
    have hfilp₁ : { t with closeOnExec := Function.update t.closeOnExec fd false }.filp = t.filp :=
      rfl
    have hw₁ : permission { t with closeOnExec := Function.update t.closeOnExec fd false } i₀
      mayWrite = false := hw
    have heuid₁ : { t with closeOnExec := Function.update t.closeOnExec fd false }.euid ≠ 0 := heuid
    dsimp only
    generalize { t with closeOnExec := Function.update t.closeOnExec fd false } = t₁
      at hfilp₁ hw₁ heuid₁ ⊢
    rw [← hfilp₁] at hown
    have G₁ : Guarded k i₀ { s with tasks := Function.update s.tasks nr (some t₁) } :=
      guarded_setTask _ _ G hown
    rw [wp_bind, wp_setTask, wp_bind, wp_get]
    have hfiles : ({ s with tasks := Function.update s.tasks nr (some t₁) } : State).files = s.files :=
      rfl
    generalize { s with tasks := Function.update s.tasks nr (some t₁) } = s₁ at G₁ hfiles ⊢
    cases (List.range nrFile).find? fun f => (s₁.files f).count = 0 with
    | none => exact G₁
    | some f =>
      simp only [wp_bind]
      refine wp_mono (openNamei_spec P G₁.kept heuid₁ hw₁ flag _ found) ?_
        (fun _ _ h => G₁.of_quiet h)
      rintro r s₂ ⟨hq, hgrant⟩
      have G₂ := G₁.of_quiet hq
      -- the entry that was not used after all
      have hunused : ∀ s₃, Guarded k i₀ s₃ → s₃.files = s₁.files →
          Guarded k i₀ { s₃ with files := Function.update s₃.files f { s₁.files f with count := 0 } } :=
        fun s₃ G₃ h₃ => guarded_sameFile _ _ G₃ (by rw [h₃]) (by rw [h₃])
      cases r with
      | error e => exact hunused s₂ G₂ hq.files
      | ok id =>
        simp only [wp_bind, wp_get]
        cases hi : s₂.inodes id with
        | none => exact G₂
        | some inode =>
          dsimp only
          cases htty : openTty _ inode with
          | none =>
            simp only [wp_bind]
            refine wp_mono (iput_spec P G₂.kept id) ?_ (fun _ _ h => G₂.of_quiet h)
            intro _ s₃ h₃
            exact hunused s₃ (G₂.of_quiet h₃) (h₃.files.trans hq.files)
          | some task =>
            simp only [wp_bind, wp_setFile, wp_setTask, wp_pure]
            have hread : id = k → flag &&& oAccmode = 0 := by
              rintro rfl
              exact hgrant rfl
            refine guarded_setTask _ _ (guarded_setFile G₂ hread) ?_
            intro fd' g hg hk
            have hfilp := openTty_filp htty
            rw [hfilp] at hg
            dsimp only at hg hk ⊢
            by_cases hgf : g = f
            · rw [hgf, Function.update_self] at hk ⊢
              exact hread hk
            · rw [Function.update_of_ne hgf] at hk ⊢
              have hfd' : fd' ≠ fd := by
                rintro rfl
                rw [Function.update_self] at hg
                exact hgf (Option.some.inj hg).symm
              rw [Function.update_of_ne hfd'] at hg
              rw [hq.files, hfiles] at hk ⊢
              exact hown fd' g (by rw [hfilp₁]; exact hg) hk

theorem sysClose_spec (P : Linked i₀) (G : Guarded k i₀ s) (ht : s.tasks nr = some t) (fd : Nat) :
    wp (sysClose nr t fd) (fun _ s' => Guarded k i₀ s') (fun _ s' => Guarded k i₀ s') s := by
  have hown := fun fd f hfd hk => G.readers nr t fd f ht hfd hk
  unfold sysClose
  rw [wp_ite]
  refine ⟨fun _ => G, fun _ => ?_⟩
  simp only [wp_bind, wp_setTask]
  have G₁ := guarded_setTask nr { t with closeOnExec := Function.update t.closeOnExec fd false } G hown
  cases hfd : t.filp fd with
  | none => exact G₁
  | some f =>
    simp only [wp_bind, wp_setTask, wp_get]
    let t₂ : Task := { t with
      closeOnExec := Function.update t.closeOnExec fd false
      filp := Function.update t.filp fd none }
    have hown₂ : ∀ fd' g, t₂.filp fd' = some g → (s.files g).inode = k →
        (s.files g).flags &&& oAccmode = 0 := by
      intro fd' g hg hk
      have hfd' : fd' ≠ fd := by
        rintro rfl
        simp [t₂] at hg
      have hg' : t.filp fd' = some g := by simpa [t₂, Function.update_of_ne hfd'] using hg
      exact hown fd' g hg' hk
    have G₂ := guarded_setTask nr t₂ G₁ hown₂
    simp only [wp_ite, wp_throw, wp_bind, wp_setFile]
    refine ⟨fun _ => G₂, fun _ => ?_⟩
    have G₃ := guarded_sameFile f { s.files f with count := (s.files f).count - 1 } G₂ rfl rfl
    refine ⟨fun _ => G₃, fun _ => ?_⟩
    exact wp_mono (iput_spec P G₃.kept _) (fun _ _ h => G₃.of_quiet h) (fun _ _ h => G₃.of_quiet h)

theorem dupfd_spec (G : Guarded k i₀ s) (ht : s.tasks nr = some t) (fd arg : Nat) :
    wp (dupfd nr t fd arg) (fun _ s' => Guarded k i₀ s') (fun _ s' => Guarded k i₀ s') s := by
  have hown := fun fd f hfd hk => G.readers nr t fd f ht hfd hk
  unfold dupfd
  rw [wp_ite]
  refine ⟨fun _ => G, fun _ => ?_⟩
  cases hfd : t.filp fd with
  | none => exact G
  | some f =>
    dsimp only
    rw [wp_ite]
    refine ⟨fun _ => G, fun _ => ?_⟩
    cases (List.range nrOpen).find? fun k => arg ≤ k ∧ (t.filp k).isNone with
    | none => exact G
    | some j =>
      simp only [wp_bind, wp_setTask, wp_get, wp_setFile, wp_pure]
      refine guarded_sameFile _ _ (guarded_setTask _ _ G ?_) rfl rfl
      intro fd' g hg hk
      dsimp only at hg
      by_cases hj : fd' = j
      · rw [hj, Function.update_self] at hg
        cases hg
        exact hown fd f hfd hk
      · rw [Function.update_of_ne hj] at hg
        exact hown fd' g hg hk

theorem sysDup2_spec (P : Linked i₀) (G : Guarded k i₀ s) (ht : s.tasks nr = some t)
    (oldfd newfd : Nat) :
    wp (sysDup2 nr t oldfd newfd) (fun _ s' => Guarded k i₀ s') (fun _ s' => Guarded k i₀ s') s := by
  unfold sysDup2
  rw [wp_bind]
  refine wp_mono (sysClose_spec P G ht newfd) ?_ (fun _ _ h => h)
  intro _ s₁ G₁
  simp only [wp_bind, wp_get]
  cases ht₁ : s₁.tasks nr with
  | none => exact G₁
  | some t₁ => exact dupfd_spec G₁ ht₁ oldfd newfd

/-- `F_SETFL` does not touch the access mode. -/
theorem setfl_accmode (flags arg : Nat) (h : flags &&& oAccmode = 0) :
    ((flags ^^^ (flags &&& (oAppend ||| oNonblock))) ||| (arg &&& (oAppend ||| oNonblock))) &&&
      oAccmode = 0 := by
  apply Nat.eq_of_testBit_eq
  intro b
  have hb := congrArg (fun x => x.testBit b) h
  have hdisj : (oAppend ||| oNonblock).testBit b = true → oAccmode.testBit b = false := by
    intro h1
    have h0 : (oAppend ||| oNonblock) &&& oAccmode = 0 := by decide
    have h2 := congrArg (fun x => x.testBit b) h0
    simp only [Nat.testBit_and, h1, Bool.true_and, Nat.zero_testBit] at h2
    exact h2
  simp only [Nat.testBit_and, Nat.testBit_or, Nat.testBit_xor, Nat.zero_testBit] at hb hdisj ⊢
  cases hf : flags.testBit b <;> cases ha : arg.testBit b <;>
    cases hm : oAccmode.testBit b <;> simp_all

theorem sysFcntl_spec (G : Guarded k i₀ s) (ht : s.tasks nr = some t) (fd cmd arg : Nat) :
    wp (sysFcntl nr t fd cmd arg) (fun _ s' => Guarded k i₀ s') (fun _ s' => Guarded k i₀ s') s := by
  have hown := fun fd f hfd hk => G.readers nr t fd f ht hfd hk
  unfold sysFcntl
  rw [wp_ite]
  refine ⟨fun _ => G, fun _ => ?_⟩
  cases hfd : t.filp fd with
  | none => exact G
  | some f =>
    simp only [wp_bind, wp_get]
    split
    · exact dupfd_spec G ht fd arg
    · exact G
    · exact guarded_setTask _ _ G hown
    · exact G
    · simp only [wp_bind, wp_setFile, wp_pure]
      exact guarded_setFile G fun hk => setfl_accmode _ _ (hown fd f hfd hk)
    · exact G

theorem sysLseek_spec (G : Guarded k i₀ s) (fd : Nat) (offset : Int) (origin : Nat) :
    wp (sysLseek t fd offset origin) (fun _ s' => Guarded k i₀ s')
      (fun _ s' => Guarded k i₀ s') s := by
  unfold sysLseek
  rw [wp_ite]
  refine ⟨fun _ => G, fun _ => ?_⟩
  cases t.filp fd with
  | none => exact G
  | some f =>
    simp only [wp_bind, wp_get]
    cases s.inodes (s.files f).inode with
    | none => exact G
    | some inode =>
      simp only [wp_ite]
      refine ⟨fun _ => G, fun _ => ⟨fun _ => G, fun _ => ?_⟩⟩
      split
      · exact G
      · simp only [wp_ite, wp_bind, wp_setFile, wp_pure]
        exact ⟨fun _ => G, fun _ => guarded_sameFile _ _ G rfl rfl⟩

theorem sysRead_spec (G : Guarded k i₀ s) (fd : Nat) (count : Int) (done : Nat) :
    wp (sysRead t fd count done) (fun _ s' => Guarded k i₀ s') (fun _ s' => Guarded k i₀ s') s := by
  unfold sysRead
  rw [wp_ite]
  refine ⟨fun _ => G, fun _ => ?_⟩
  cases t.filp fd with
  | none => exact G
  | some f =>
    simp only [wp_ite, wp_bind, wp_get]
    refine ⟨fun _ => G, fun _ => ?_⟩
    cases s.inodes (s.files f).inode with
    | none => exact G
    | some inode =>
      simp only [wp_ite, wp_bind, wp_setFile, wp_pure]
      exact ⟨fun _ => G, fun _ => ⟨fun _ => guarded_sameFile _ _ G rfl rfl, fun _ => G⟩⟩

/-! ## Writing -/

/-- A write that stays off the file: it does not come through a descriptor that
was opened for reading it, nor through a block special file. -/
def WritesElsewhere (k : Nat) (s : State) (t : Task) (fd : Nat) : Prop :=
  ∀ f, t.filp fd = some f →
    ((s.files f).inode = k → (s.files f).flags &&& oAccmode ≠ 0) ∧
    ∀ inode, s.inodes (s.files f).inode = some inode → isBlk inode.mode = false

theorem sysWrite_spec (G : Guarded k i₀ s) (ht : s.tasks nr = some t) (fd : Nat) (buf : List Byte)
    (done : Nat) (after : Nat → Option Inode)
    (helse : buf ≠ [] → WritesElsewhere k s t fd) :
    wp (sysWrite t fd buf done after) (fun _ s' => Guarded k i₀ s')
      (fun _ s' => Guarded k i₀ s') s := by
  unfold sysWrite
  rw [wp_ite]
  refine ⟨fun _ => G, fun _ => ?_⟩
  cases hfd : t.filp fd with
  | none => exact G
  | some f =>
    simp only [wp_ite, wp_bind, wp_get]
    refine ⟨fun _ => G, fun hne => ?_⟩
    obtain ⟨hacc, hblk⟩ := helse (fun h => hne (by rw [h]; rfl)) f hfd
    -- the descriptors of the file are all opened for reading
    have hother : (s.files f).inode ≠ k :=
      fun hk => hacc hk (G.readers nr t fd f ht hfd hk)
    cases hi : s.inodes (s.files f).inode with
    | none => exact G
    | some inode =>
      simp only [wp_ite, wp_bind, wp_setFile, wp_pure]
      refine ⟨fun _ => G, fun _ => ⟨fun _ => guarded_sameFile _ _ G rfl rfl, fun _ =>
        ⟨fun hb => ?_, fun _ => ⟨fun _ => ?_, fun _ => G⟩⟩⟩⟩
      · rw [hblk inode hi] at hb
        cases hb
      · unfold fileWrite
        simp only [wp_bind, wp_setInode]
        have h₁ : ∀ i, Quiet k i₀ s { s with inodes := Function.update s.inodes (s.files f).inode i } :=
          fun i => quiet_setInode G.kept fun h => absurd h hother
        rw [wp_ite]
        refine ⟨fun _ => ?_, fun _ => G.of_quiet (h₁ _)⟩
        rw [wp_bind, wp_setFile, wp_pure]
        exact guarded_sameFile _ _ (G.of_quiet (h₁ _)) rfl rfl

/-! ## fork and execve -/

theorem copyProcess_spec (G : Guarded k i₀ s) (ht : s.tasks nr = some t) (child : Nat) :
    wp (copyProcess t child) (fun _ s' => Guarded k i₀ s') (fun _ s' => Guarded k i₀ s') s := by
  have hown := fun fd f hfd hk => G.readers nr t fd f ht hfd hk
  unfold copyProcess
  rw [wp_bind, wp_get]
  cases s.tasks child with
  | some _ => exact G
  | none =>
    simp only [wp_bind, wp_set]
    have G₁ := guarded_files (fun f => { s.files f with
      count := (s.files f).count +
        ((List.range nrOpen).filter fun fd => t.filp fd = some f).length })
      G (fun _ => rfl) (fun _ => rfl)
    refine wp_mono (igetAll_spec _ G₁.kept) ?_ (fun _ _ h => h.elim)
    intro _ s₂ h₂
    rw [wp_setTask]
    refine guarded_setTask child t (G₁.of_quiet h₂) ?_
    intro fd f hfd hk
    rw [h₂.files] at hk ⊢
    exact hown fd f hfd hk

theorem closeMarked_spec (P : Linked i₀) (fds : List Nat) :
    ∀ {s : State}, Guarded k i₀ s →
      wp (closeMarked nr fds) (fun _ s' => Guarded k i₀ s') (fun _ s' => Guarded k i₀ s') s := by
  induction fds with
  | nil =>
    intro s G
    exact G
  | cons fd fds ih =>
    intro s G
    unfold closeMarked
    rw [wp_bind, wp_get]
    cases ht : s.tasks nr with
    | none => exact G
    | some t =>
      dsimp only
      rw [wp_ite]
      refine ⟨fun _ => ?_, fun _ => ih G⟩
      rw [wp_bind]
      exact wp_mono (sysClose_spec P G ht fd) (fun _ _ G₁ => ih G₁) (fun _ _ h => h)

theorem doExecve_spec (P : Linked i₀) (G : Guarded k i₀ s) (ht : s.tasks nr = some t) (id : Nat)
    (fails : Option Int) :
    wp (doExecve nr t id fails) (fun _ s' => Guarded k i₀ s') (fun _ s' => Guarded k i₀ s') s := by
  have hown := fun fd f hfd hk => G.readers nr t fd f ht hfd hk
  unfold doExecve
  rw [wp_bind]
  refine wp_mono (iget_spec G.kept id) ?_ (fun _ _ h => h.elim)
  rintro r s₁ ⟨h₁, -⟩
  have G₁ := G.of_quiet h₁
  have hput : ∀ e : Int, wp (do iput id; return e) (fun _ s' => Guarded k i₀ s')
      (fun _ s' => Guarded k i₀ s') s₁ := by
    intro e
    rw [wp_bind]
    exact wp_mono (iput_spec P G₁.kept id) (fun _ _ h => G₁.of_quiet h) (fun _ _ h => G₁.of_quiet h)
  cases r with
  | none => exact G₁
  | some inode =>
    simp only [wp_ite]
    refine ⟨fun _ => hput _, fun _ => ⟨fun _ => hput _, fun _ => ?_⟩⟩
    cases fails with
    | some e => exact hput e
    | none =>
      simp only [wp_bind, wp_setTask]
      refine wp_mono (iputAll_spec P _ G₁.kept) ?_ (fun _ _ h => G₁.of_quiet h)
      intro _ s₂ h₂
      have hfiles : s₂.files = s.files := h₂.files.trans h₁.files
      have G₃ := guarded_setTask nr { t with executable := some id } (G₁.of_quiet h₂)
        (by rw [hfiles]; exact hown)
      refine wp_mono (closeMarked_spec P _ G₃) ?_ (fun _ _ h => h)
      intro _ s₄ G₄
      simp only [wp_get]
      cases ht₄ : s₄.tasks nr with
      | none => exact G₄
      | some t₄ =>
        exact guarded_setTask _ _ G₄ fun fd f hfd hk => G₄.readers nr t₄ fd f ht₄ hfd hk

/-! ## Runs -/

/-- The calls that do not write to the file behind the back of `open_namei`. -/
def Allowed (k : Nat) (s : State) (t : Task) : Op → Prop
  | .write fd buf _ _ => buf ≠ [] → WritesElsewhere k s t fd
  | _ => True

/-- One call keeps the file and who may only read it. -/
theorem op_spec (P : Linked i₀) (G : Guarded k i₀ s) (ht : s.tasks nr = some t)
    (heuid : t.euid ≠ 0) (hw : permission t i₀ mayWrite = false) (op : Op)
    (hallow : Allowed k s t op) :
    wp (op.run nr t) (fun _ s' => Guarded k i₀ s') (fun _ s' => Guarded k i₀ s') s := by
  cases op with
  | «open» flag mode found => exact sysOpen_spec P G ht heuid hw flag mode found
  | creat mode found => exact sysOpen_spec P G ht heuid hw _ mode found
  | close fd => exact sysClose_spec P G ht fd
  | dup fildes => exact dupfd_spec G ht fildes 0
  | dup2 oldfd newfd => exact sysDup2_spec P G ht oldfd newfd
  | fcntl fd cmd arg => exact sysFcntl_spec G ht fd cmd arg
  | lseek fd offset origin => exact sysLseek_spec G fd offset origin
  | read fd count done => exact sysRead_spec G fd count done
  | write fd buf done after => exact sysWrite_spec G ht fd buf done after hallow
  | fork child =>
    unfold Op.run
    rw [wp_bind]
    exact copyProcess_spec G ht child
  | execve id fails => exact doExecve_spec P G ht id fails

/-- A call of a task that may not write inode `k`, under a condition on the
state, the task and the call. -/
inductive Step (k : Nat) (allow : State → Task → Op → Prop) : State → State → Prop
  | call {s s' : State} {nr : Nat} {t : Task} {op : Op} {r : Int} (ht : s.tasks nr = some t)
      (heuid : t.euid ≠ 0) (hw : ∀ i, s.inodes k = some i → permission t i mayWrite = false)
      (hallow : allow s t op) (hrun : op.run nr t s = .ok r s') : Step k allow s s'

/-- Runs of any length. -/
abbrev Reach (k : Nat) (allow : State → Task → Op → Prop) : State → State → Prop :=
  Relation.ReflTransGen (Step k allow)

theorem reach_guarded (P : Linked i₀) (G : Guarded k i₀ s) (h : Reach k (Allowed k) s s') :
    Guarded k i₀ s' := by
  induction h with
  | refl => exact G
  | tail _ hstep ih =>
    obtain ⟨ht, heuid, hw, hallow, hrun⟩ := hstep
    obtain ⟨n, hn⟩ := ih.kept
    -- the count does not matter for the rights
    have hw₀ := hw _ hn
    change permission _ i₀ mayWrite = false at hw₀
    have hnext := wp_ok (op_spec P ih ht heuid hw₀ _ hallow) hrun
    exact hnext

/-- **Write protection.** A regular file with a link keeps its bytes and its
size in every run of calls of tasks that may not write it and have inherited no
descriptor open for writing, as long as none of them writes through a descriptor of
the file, which it can have opened for reading only, or to a block device. -/
theorem write_protected (hk : s.inodes k = some i₀) (P : Linked i₀) (R : Readers k s)
    (h : Reach k (Allowed k) s s') :
    ∃ i, s'.inodes k = some i ∧ i.size = i₀.size ∧ i.data = i₀.data := by
  obtain ⟨n, hn⟩ := (reach_guarded P ⟨⟨i₀.count, hk⟩, R⟩ h).kept
  exact ⟨_, hn, rfl, rfl⟩

/-- A file of root that others may only read, in a directory where anybody may create
files, and a task of user 1. -/
def readOnlyFile : State where
  inodes := fun id => match id with
    | 1 => some ⟨0o040777, 0, 0, 2, 0x301, 0, 1, false, 64, fun _ => 0#8⟩
    | 2 => some ⟨0o100444, 0, 0, 1, 0x301, 0, 0, false, 3, fun _ => 7#8⟩
    | _ => none
  files := fun _ => ⟨0, 0, 0, 0, 0⟩
  tasks := fun nr => match nr with
    | 1 => some ⟨1, 1, 0o22, false, none, fun _ => none, fun _ => false, 1, 1, none⟩
    | _ => none

theorem readers_readOnlyFile : Readers 2 readOnlyFile := by
  intro nr t fd f ht hfd
  unfold readOnlyFile at ht
  dsimp only at ht
  split at ht
  · cases ht
    cases hfd
  · cases ht

/-- The condition of the runs, to be evaluated. -/
def allowed (k : Nat) (s : State) (t : Task) : Op → Bool
  | .write fd buf _ _ => buf.isEmpty ||
    (t.filp fd).all fun f =>
      (decide ((s.files f).inode ≠ k) || decide ((s.files f).flags &&& oAccmode ≠ 0)) &&
        (s.inodes (s.files f).inode).all fun i => !isBlk i.mode
  | _ => true

theorem allow_of_allowed {t : Task} {op : Op} (h : allowed k s t op = true) : Allowed k s t op := by
  cases op with
  | write fd buf done after =>
    intro hbuf f hf
    cases buf with
    | nil => exact absurd rfl hbuf
    | cons b bs =>
      simp only [allowed, List.isEmpty_cons, Bool.false_or, hf, Option.all_some, Bool.and_eq_true,
        Bool.or_eq_true, decide_eq_true_eq] at h
      refine ⟨fun hk => h.1.resolve_left fun hne => hne hk, fun inode hi => ?_⟩
      rw [hi] at h
      simpa using h.2
  | _ => trivial

/-- A run of given calls, each by a task that may not write inode `k`. -/
def playCalls (k : Nat) (ok : State → Task → Op → Bool) : State → List (Nat × Op) → Option State
  | s, [] => some s
  | s, (nr, op) :: calls =>
    match s.tasks nr, s.inodes k with
    | some t, some i =>
      if (t.euid ≠ 0 ∧ permission t i mayWrite = false) ∧ ok s t op then
        match op.run nr t s with
        | .ok _ s' => playCalls k ok s' calls
        | .error _ _ => none
      else none
    | _, _ => none

theorem reach_playCalls {ok : State → Task → Op → Bool} {allow : State → Task → Op → Prop}
    (hok : ∀ s t op, ok s t op = true → allow s t op) (calls : List (Nat × Op)) :
    ∀ {s s' : State}, playCalls k ok s calls = some s' → Reach k allow s s' := by
  induction calls with
  | nil =>
    intro s s' h
    cases h
    exact .refl
  | cons c calls ih =>
    intro s s' h
    obtain ⟨nr, op⟩ := c
    unfold playCalls at h
    split at h
    · next t i ht hi =>
      split at h
      · next hg =>
        split at h
        · next r s₁ hrun =>
          refine .head (.call ht hg.1.1 ?_ (hok s t op hg.2) hrun) (ih h)
          intro i' hi'
          rw [hi] at hi'
          cases hi'
          exact hg.1.2
        · cases h
      · cases h
    · cases h

/-- The task opens the file for reading and forks, and the child reads and closes. The
task creates another file and writes to it. -/
theorem write_protected_reader :
    ∃ s, Reach 2 (Allowed 2) readOnlyFile s ∧ ((s.inodes 3).map fun i => i.data 0) = some 9#8 ∧
      ∃ i, s.inodes 2 = some i ∧ i.size = 3 ∧ i.data = fun _ => 7#8 := by
  have hplay : (playCalls 2 (allowed 2) readOnlyFile [(1, .open 0 0 (.entry 1 2)), (1, .fork 2),
      (2, .read 0 3 3), (2, .close 0), (1, .creat 0o644 (.absent 1 (some 3) true)),
      (1, .write 1 [9#8] 1 fun _ => none)]).map (fun s => (s.inodes 3).map fun i => i.data 0) =
      some (some 9#8) := by decide
  obtain ⟨s, hs, hdata⟩ := Option.map_eq_some_iff.mp hplay
  have hreach : Reach 2 (Allowed 2) readOnlyFile s :=
    reach_playCalls (fun _ _ _ => allow_of_allowed) _ hs
  exact ⟨s, hreach, hdata, write_protected rfl ⟨rfl, rfl, by decide⟩ readers_readOnlyFile hreach⟩

/-- The task opens the file for reading and writes a byte. -/
theorem write_through_reader :
    ¬ ∀ (k : Nat) (i₀ : Inode) (s s' : State), s.inodes k = some i₀ → Linked i₀ → Readers k s →
        Reach k (fun _ _ _ => True) s s' →
        ∃ i, s'.inodes k = some i ∧ i.size = i₀.size ∧ i.data = i₀.data := by
  intro hclaim
  have hplay : (playCalls 2 (fun _ _ _ => true) readOnlyFile [(1, .open 0 0 (.entry 1 2)),
      (1, .write 0 [9#8] 1 fun _ => none)]).map (fun s => (s.inodes 2).map fun i => i.data 0) =
      some (some 9#8) := by decide
  obtain ⟨s, hs, hdata⟩ := Option.map_eq_some_iff.mp hplay
  obtain ⟨i, hi, -, hsame⟩ := hclaim 2 _ readOnlyFile s rfl ⟨rfl, rfl, by decide⟩
    readers_readOnlyFile (reach_playCalls (fun _ _ _ _ => trivial) _ hs)
  rw [hi, Option.map_some, hsame] at hdata
  cases hdata

end Linux011.Fs.OpenFile
