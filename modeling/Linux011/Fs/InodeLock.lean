import Linux011.Fs.Inodes

/-!
# The inode table — locks

`read_inode` and `write_inode` lock an inode and read its block. Below `bread`,
`getblk` may write a dirty victim back: `sync_dev` calls `sync_inodes`, which waits
for every inode of the table, the locked one too.

* `Owned.lock`, `Owned.unlock` — the owners of locks;
* `getblk_lock`, `clean_lock` — where a lock may be held;
* `no_self_wait` — a task that has locked an inode waits for no inode, as long as
  no `getblk` finds its victim dirty while its task has locked an inode;
* `holder_waits_for_no_inode` — so it sleeps for buffers only, until a request ends;
* `self_wait` — a `getblk` that does.
-/

namespace Linux011.Fs.Inodes

open Linux011.Lib Linux011.Lib.Kernel

/-- What a task in a call has: its number, and the inode it has locked. -/
abbrev Lock := Option (Nat × Option Nat)

/-- The owner of a lock knows of it. -/
structure Owned (G : Nat → Lock) (s : State) : Prop where
  live  : ∀ t g, G t = some g → g.1 = t
  owner : ∀ i t, s.owner i = some t → G t = some (t, some i)

/-- The condition of the runs: a dirty victim is written back by tasks that have no
inode locked. -/
def unlocked : Tag → State → Prop
  | .flush t, s => ∀ i, s.owner i ≠ some t
  | _, _ => True

/-- A task that waits for an inode has none locked. -/
def patient : Option Tag → State → Prop
  | some (.wait t _), s => ∀ j, s.owner j ≠ some t
  | _, _ => True

def lockContract : Contract kernel Lock where
  inv := Owned
  allow := unlocked
  check := fun tag s _ => patient tag s
  rest := fun g => ∀ t l, g = some (t, l) → l = none
  inv_env := by
    rintro G s s' h ⟨B, x, -, rfl⟩
    exact ⟨h.live, h.owner⟩
  reads := fun _ _ _ => trivial

variable {G : Nat → Lock} {s s' : State} {n t i : Nat} {l : Option Nat}

/-! ## Owners -/

/-- The ghost of `t` changes, and with it the locks of `t` only. -/
theorem Owned.change (O : Owned G s) {l' : Option Nat}
    (hmine : ∀ j, s'.owner j = some t → l' = some j)
    (hothers : ∀ j x, x ≠ t → s'.owner j = some x → s.owner j = some x) :
    Owned (Function.update G t (some (t, l'))) s' := by
  constructor
  · intro x g hx
    by_cases hxt : x = t
    · rw [hxt, Function.update_self] at hx
      cases hx
      exact hxt.symm
    · rw [Function.update_of_ne hxt] at hx
      exact O.live x g hx
  · intro j x hj
    by_cases hxt : x = t
    · subst hxt
      rw [Function.update_self, hmine j hj]
    · rw [Function.update_of_ne hxt]
      exact O.owner j x (hothers j x hxt hj)

/-- A task without a lock owns none. -/
theorem Owned.none (O : Owned G s) (hg : G t = some (t, none)) (j : Nat) : s.owner j ≠ some t := by
  intro hj
  have h := O.owner j t hj
  rw [hg] at h
  cases h

theorem Owned.lock (O : Owned G s) (hg : G t = some (t, Option.none))
    (howner : s'.owner = Function.update s.owner i (some t)) :
    Owned (Function.update G t (some (t, some i))) s' := by
  refine O.change ?_ ?_
  · intro j hj
    by_cases hji : j = i
    · rw [hji]
    · rw [howner, Function.update_of_ne hji] at hj
      exact absurd hj (O.none hg j)
  · intro j x hx hj
    by_cases hji : j = i
    · rw [howner, hji, Function.update_self] at hj
      exact absurd (Option.some.inj hj).symm hx
    · rw [howner, Function.update_of_ne hji] at hj
      exact hj

/-- The lock of `i` is taken away, whoever has it. -/
theorem Owned.free (O : Owned G s) (howner : s'.owner = Function.update s.owner i Option.none) :
    Owned G s' := by
  refine ⟨O.live, ?_⟩
  intro j x hj
  by_cases hji : j = i
  · rw [howner, hji, Function.update_self] at hj
    cases hj
  · rw [howner, Function.update_of_ne hji] at hj
    exact O.owner j x hj

theorem Owned.unlock (O : Owned G s)
    (hg : G t = some (t, some i) ∨ G t = some (t, Option.none))
    (howner : s'.owner = Function.update s.owner i Option.none) :
    Owned (Function.update G t (some (t, Option.none))) s' := by
  have hold : ∀ j x, s'.owner j = some x → j ≠ i ∧ s.owner j = some x := by
    intro j x hj
    have hji : j ≠ i := by
      rintro rfl
      rw [howner, Function.update_self] at hj
      cases hj
    rw [howner, Function.update_of_ne hji] at hj
    exact ⟨hji, hj⟩
  refine O.change ?_ fun j x _ hj => (hold j x hj).2
  intro j hj
  obtain ⟨hji, hj⟩ := hold j t hj
  have h := O.owner j t hj
  rcases hg with hg | hg
  · rw [hg] at h
    cases h
    exact absurd rfl hji
  · exact absurd hj (O.none hg j)

/-! ## The procedures -/

/-- The task is `t` and has locked `l`. -/
def Has (t : Nat) (l : Option Nat) (g : Lock) (_ : State) : Prop := g = some (t, l)

theorem stable_has (t : Nat) (l : Option Nat) : Stable lockContract (Has t l) :=
  stable_ghost fun g => g = some (t, l)

theorem owner_of {G : Nat → Lock} {x : Nat} (O : Owned G s) (h : Has t l (G x) s) :
    x = t ∧ G t = some (t, l) := by
  have hx : t = x := O.live x _ h
  subst hx
  exact ⟨rfl, h⟩

theorem modify_has {f : State → State} (hf : ∀ s, (f s).owner = s.owner) :
    Holds lockContract n (Code.modify f) (Has t l) (fun _ => Has t l) := by
  refine holds_modify (stable_has t l) ?_
  intro G x s O h
  refine ⟨trivial, G x, ?_, h⟩
  rw [Function.update_eq_self]
  refine ⟨O.live, ?_⟩
  rw [hf]
  exact O.owner

/-- A slot is written and is not locked afterwards. -/
theorem setFree_has (i : Nat) (f : State → State)
    (hf : ∀ s, (f s).owner = Function.update s.owner i none) :
    Holds lockContract n (Code.modify f) (Has t l) (fun _ => Has t l) := by
  refine holds_modify (stable_has t l) ?_
  intro G x s O h
  refine ⟨trivial, G x, ?_, h⟩
  rw [Function.update_eq_self]
  exact O.free (hf s)

theorem read_has {α : Type} (f : State → α) :
    Holds lockContract n (Code.read f : M α) (Has t l) (fun _ => Has t l) :=
  holds_read (stable_has t l) fun _ _ _ _ h => h

theorem ask_has : Holds lockContract n (Code.ask : M Nat) (Has t l) (fun _ => Has t l) :=
  holds_ask (stable_has t l) fun _ _ _ _ _ h => h

theorem sleep_has : Holds lockContract n (Code.sleep : M Unit) (Has t l) (fun _ => Has t l) :=
  holds_sleep fun g => g = some (t, l)

theorem pure_has {α : Type} (a : α) :
    Holds lockContract n (pure a : M α) (Has t l) (fun _ => Has t l) :=
  holds_pure fun _ _ _ _ h => h

/-- The task has its lock, or it was taken away and the task knows. -/
def Left (t : Nat) (l : Option Nat) (g : Lock) (s : State) : Prop := Has t l g s ∨ Has t none g s

/-- The procedures that wait for inodes are called without a lock. -/
def Enter : Proc → Nat × Option Nat → Lock → State → Prop
  | .waitOnBuffer _, k, g, s => Has k.1 k.2 g s
  | .pass _ _, k, g, s => Has k.1 k.2 g s
  | .getblk t _ _, k, g, s => Has t k.2 g s
  | .clean t _ _ _, k, g, s => Has t k.2 g s
  | .waitOnInode t _, _, g, s => Has t none g s
  | .syncInodes t _, _, g, s => Has t none g s
  | .empty t, _, g, s => Has t none g s
  | .written t _, _, g, s => Has t none g s
  | .scan t _ _ _, _, g, s => Has t none g s
  | .put t _, _, g, s => Has t none g s

def Leave : Proc → Nat × Option Nat → Ret → Lock → State → Prop
  | .waitOnBuffer _, k, _, g, s => Has k.1 k.2 g s
  | .pass _ _, k, _, g, s => Has k.1 k.2 g s
  | .getblk t _ _, k, _, g, s => Left t k.2 g s
  | .clean t _ _ _, k, _, g, s => Left t k.2 g s
  | .waitOnInode t _, _, _, g, s => Has t none g s
  | .syncInodes t _, _, _, g, s => Has t none g s
  | .empty t, _, _, g, s => Has t none g s
  | .written t _, _, _, g, s => Has t none g s
  | .scan t _ _ _, _, _, g, s => Has t none g s
  | .put t _, _, _, g, s => Has t none g s

section Procedures

variable (hcall : ∀ p k, Holds lockContract n (Code.call p) (Enter p k) (Leave p k))
include hcall

theorem waitOnBuffer_has (b : Nat) :
    Holds lockContract n (waitOnBuffer b) (Has t l) (fun _ => Has t l) :=
  holds_bind (hcall (.waitOnBuffer b) (t, l)) fun _ => pure_has _

theorem waitOnInode_has (i : Nat) :
    Holds lockContract n (waitOnInode t i) (Has t none) (fun _ => Has t none) :=
  holds_bind (hcall (.waitOnInode t i) (t, none)) fun _ => pure_has _

theorem lockInode_has (i : Nat) :
    Holds lockContract n (lockInode t i) (Has t none) (fun _ => Has t (some i)) := by
  refine holds_bind (waitOnInode_has hcall i) fun _ => ?_
  refine holds_modify (stable_has t none) ?_
  intro G x s O h
  obtain ⟨rfl, hg⟩ := owner_of O h
  exact ⟨trivial, some (x, some i), O.lock hg rfl, rfl⟩

omit hcall in
theorem unlockInode_has (i : Nat) :
    Holds lockContract n (unlockInode i) (Left t (some i)) (fun _ => Has t none) := by
  refine holds_or (holds_modify (stable_has t _) ?_) (holds_modify (stable_has t _) ?_)
  · intro G x s O h
    obtain ⟨rfl, hg⟩ := owner_of O h
    exact ⟨trivial, some (x, none), O.unlock (Or.inl hg) rfl, rfl⟩
  · intro G x s O h
    obtain ⟨rfl, hg⟩ := owner_of O h
    exact ⟨trivial, some (x, none), O.unlock (Or.inr hg) rfl, rfl⟩

omit hcall in
theorem setHead_has (b : Nat) (f : State → Buf) :
    Holds lockContract n (Code.modify fun s => s.setHead b (f s)) (Has t l) (fun _ => Has t l) :=
  modify_has fun _ => rfl

omit hcall in
theorem setInode_has (i : Nat) (f : State → Slot) :
    Holds lockContract n (Code.modify fun s => s.setInode i (f s)) (Has t l) (fun _ => Has t l) :=
  modify_has fun _ => rfl

theorem llRwBlock_has (write : Bool) (b : Nat) :
    Holds lockContract n (llRwBlock write b) (Has t l) (fun _ => Has t l) := by
  refine holds_bind (waitOnBuffer_has hcall b) fun _ => holds_bind (read_has _) fun x => ?_
  refine holds_when (fun _ => ?_) fun _ _ _ _ h _ => h
  exact holds_bind sleep_has fun _ => setHead_has b _

theorem pass_lock (dev : Option Nat) (b : Nat) :
    Holds lockContract n (passBody dev b) (Has t l) (fun _ => Has t l) := by
  have hnext : Holds lockContract n (Code.call (.pass dev (b + 1)) : M Ret) (Has t l)
      (fun _ => Has t l) := hcall (.pass dev (b + 1)) (t, l)
  refine holds_bind (read_has _) fun more => holds_ite (fun _ => ?_) fun _ => pure_has _
  refine holds_bind (read_has _) fun here => holds_ite (fun _ => ?_) fun _ => hnext
  refine holds_bind (waitOnBuffer_has hcall b) fun _ => holds_bind (read_has _) fun dirt => ?_
  refine holds_bind (holds_when (fun _ => llRwBlock_has hcall true b) fun _ _ _ _ h _ => h)
    fun _ => hnext

theorem syncDev_has (dev : Nat) :
    Holds lockContract n (syncDev t dev) (Has t none) (fun _ => Has t none) := by
  refine holds_bind (hcall (.pass (some dev) 0) (t, none)) fun _ => ?_
  refine holds_bind (hcall (.syncInodes t 0) (t, none)) fun _ => ?_
  exact holds_bind (hcall (.pass (some dev) 0) (t, none)) fun _ => pure_has _

theorem getblk_lock (dev block : Nat) :
    Holds lockContract n (getblkBody t dev block) (Has t l) (fun _ => Left t l) := by
  have hagain : Holds lockContract n (Code.call (.getblk t dev block) : M Ret) (Has t l)
      (fun _ => Left t l) := hcall (.getblk t dev block) (t, l)
  refine holds_bind (read_has _) fun found => ?_
  cases found with
  | some b =>
    refine holds_bind (setHead_has b _) fun _ => holds_bind (waitOnBuffer_has hcall b) fun _ => ?_
    refine holds_bind (read_has _) fun same => holds_ite (fun _ => ?_) fun _ => ?_
    · exact holds_pure fun _ _ _ _ h => Or.inl h
    · exact holds_bind (setHead_has b _) fun _ => hagain
  | none =>
    refine holds_bind (read_has _) fun best => ?_
    cases best with
    | none => exact holds_bind sleep_has fun _ => hagain
    | some b =>
      refine holds_bind (waitOnBuffer_has hcall b) fun _ => ?_
      exact hcall (.clean t dev block b) (t, l)

/-- A dirty victim is written back only if the task owns no lock; it goes on
without one. -/
theorem clean_lock (dev block b : Nat) :
    Holds lockContract n (cleanBody t dev block b) (Has t l) (fun _ => Left t l) := by
  have hagain : Holds lockContract n (Code.call (.getblk t dev block) : M Ret) (Has t l)
      (fun _ => Left t l) := hcall (.getblk t dev block) (t, l)
  refine holds_bind (read_has _) fun x => holds_ite (fun _ => hagain) fun _ => ?_
  refine holds_ite (fun _ => ?_) fun _ => ?_
  · refine holds_bind (R := fun _ => Has t none) (holds_atom (stable_has t l) ?_) fun _ => ?_
    · intro G y s O h hfree
      obtain ⟨rfl, hg⟩ := owner_of O h
      refine ⟨trivial, some (y, none), ?_, rfl⟩
      exact O.change (fun j hj => absurd hj (hfree j)) fun _ _ _ hj => hj
    refine holds_bind (syncDev_has hcall x.dev) fun _ => ?_
    refine holds_bind (waitOnBuffer_has hcall b) fun _ => ?_
    refine (hcall (.clean t dev block b) (t, none)).conseq (fun _ _ h => h) fun _ _ _ h => ?_
    exact Or.inr (h.elim id id)
  · refine holds_bind (read_has _) fun found => ?_
    cases found with
    | some c => exact hagain
    | none =>
      refine holds_bind (modify_has fun _ => rfl) fun _ => ?_
      exact holds_pure fun _ _ _ _ h => Or.inl h

theorem brelse_has (b : Nat) : Holds lockContract n (brelse b) (Has t l) (fun _ => Has t l) := by
  refine holds_bind (waitOnBuffer_has hcall b) fun _ => holds_bind (read_has _) fun count => ?_
  exact holds_ite (fun _ => holds_panic) fun _ => setHead_has b _

theorem bread_has (dev block : Nat) :
    Holds lockContract n (bread t dev block) (Has t l) (fun _ => Left t l) := by
  -- what follows `getblk` keeps what the task has
  have hrest : ∀ (l' : Option Nat) (b : Nat), Holds lockContract n (do
      let uptodate ← Code.read fun s => (s.buf.head b).uptodate
      if uptodate then return some b
      else do
        llRwBlock false b
        waitOnBuffer b
        let uptodate ← Code.read fun s => (s.buf.head b).uptodate
        if uptodate then return some b
        else do
          brelse b
          return none : M Ret) (Has t l') (fun _ => Has t l') := by
    intro l' b
    refine holds_bind (read_has _) fun uptodate => holds_ite (fun _ => pure_has _) fun _ => ?_
    refine holds_bind (llRwBlock_has hcall false b) fun _ => ?_
    refine holds_bind (waitOnBuffer_has hcall b) fun _ => ?_
    refine holds_bind (read_has _) fun uptodate => holds_ite (fun _ => pure_has _) fun _ => ?_
    exact holds_bind (brelse_has hcall b) fun _ => pure_has _
  refine holds_bind (hcall (.getblk t dev block) (t, l)) fun found => ?_
  cases found with
  | none => exact holds_panic
  | some b =>
    refine holds_or ((hrest l b).conseq (fun _ _ h => h) fun _ _ _ h => Or.inl h) ?_
    exact (hrest none b).conseq (fun _ _ h => h) fun _ _ _ h => Or.inr h

theorem withBlock_has (i : Nat) {x : Nat → M Unit}
    (hx : ∀ b l, Holds lockContract n (x b) (Has t l) (fun _ => Has t l)) :
    Holds lockContract n (withBlock t i x) (Has t (some i)) (fun _ => Has t none) := by
  have hrest : ∀ (l' : Option Nat) (b : Nat), (l' = some i ∨ l' = none) →
      Holds lockContract n (do
        x b
        brelse b
        unlockInode i : M Unit) (Has t l') (fun _ => Has t none) := by
    intro l' b hl
    refine holds_bind (hx b l') fun _ => holds_bind (brelse_has hcall b) fun _ => ?_
    refine (unlockInode_has i).pre fun g s h => ?_
    rcases hl with rfl | rfl
    · exact Or.inl h
    · exact Or.inr h
  refine holds_bind ask_has fun super => holds_ite (fun _ => holds_panic) fun _ => ?_
  refine holds_bind (read_has _) fun dev => holds_bind (read_has _) fun block => ?_
  refine holds_bind (bread_has hcall dev block) fun bh => ?_
  cases bh with
  | none => exact holds_panic
  | some b => exact holds_or (hrest (some i) b (Or.inl rfl)) (hrest none b (Or.inr rfl))

theorem readInode_has (i : Nat) :
    Holds lockContract n (readInode t i) (Has t none) (fun _ => Has t none) := by
  refine holds_bind (lockInode_has hcall i) fun _ => withBlock_has hcall i fun b l => ?_
  refine holds_bind ask_has fun nlinks => holds_bind ask_has fun blk => ?_
  exact setInode_has i _

theorem writeInode_has (i : Nat) :
    Holds lockContract n (writeInode t i) (Has t none) (fun _ => Has t none) := by
  refine holds_bind (lockInode_has hcall i) fun _ => holds_bind (read_has _) fun x => ?_
  refine holds_ite (fun _ => ?_) fun _ => withBlock_has hcall i fun b l => ?_
  · exact (unlockInode_has i).pre fun _ _ h => Or.inl h
  · exact holds_bind (setHead_has b _) fun _ => setInode_has i _

theorem waitOnInode_lock (i : Nat) :
    Holds lockContract n (waitOnInodeBody t i) (Has t none) (fun _ => Has t none) := by
  refine holds_bind (R := fun _ => Has t none) (holds_atom (stable_has t none) ?_) fun _ => ?_
  · intro G x s O h _
    obtain ⟨rfl, hg⟩ := owner_of O h
    refine ⟨fun j => O.none hg j, G x, ?_, h⟩
    rw [Function.update_eq_self]
    exact O
  refine holds_bind (read_has _) fun lock => holds_ite (fun _ => ?_) fun _ => pure_has _
  exact holds_bind sleep_has fun _ => hcall (.waitOnInode t i) (t, none)

theorem syncInodes_lock (i : Nat) :
    Holds lockContract n (syncInodesBody t i) (Has t none) (fun _ => Has t none) := by
  refine holds_ite (fun _ => ?_) fun _ => pure_has _
  refine holds_bind (waitOnInode_has hcall i) fun _ => holds_bind (read_has _) fun x => ?_
  refine holds_bind (holds_when (fun _ => writeInode_has hcall i) fun _ _ _ _ h _ => h) fun _ => ?_
  exact hcall (.syncInodes t (i + 1)) (t, none)

theorem written_lock (i : Nat) :
    Holds lockContract n (writtenBody t i) (Has t none) (fun _ => Has t none) := by
  refine holds_bind (read_has _) fun dirt => holds_ite (fun _ => ?_) fun _ => pure_has _
  refine holds_bind (writeInode_has hcall i) fun _ => ?_
  refine holds_bind (waitOnInode_has hcall i) fun _ => ?_
  exact hcall (.written t i) (t, none)

theorem empty_lock : Holds lockContract n (emptyBody t) (Has t none) (fun _ => Has t none) := by
  refine holds_bind (read_has _) fun p => ?_
  obtain ⟨last, found⟩ := p
  refine holds_bind (modify_has fun _ => rfl) fun _ => ?_
  cases found with
  | none => exact holds_panic
  | some i =>
    refine holds_bind (waitOnInode_has hcall i) fun _ => ?_
    refine holds_bind (hcall (.written t i) (t, none)) fun _ => ?_
    refine holds_bind (read_has _) fun count => holds_ite (fun _ => ?_) fun _ => ?_
    · exact hcall (.empty t) (t, none)
    refine holds_bind (R := fun _ => Has t none) (holds_atom (stable_has t none) ?_)
      fun _ => pure_has _
    intro G x s O h _
    refine ⟨trivial, G x, ?_, h⟩
    rw [Function.update_eq_self]
    exact O.free rfl

omit hcall in
theorem freeInode_has (i : Nat) :
    Holds lockContract n (freeInode i) (Has t none) (fun _ => Has t none) := by
  refine holds_bind (read_has _) fun x => holds_ite (fun _ => ?_) fun _ => ?_
  · exact setFree_has i _ fun _ => rfl
  refine holds_ite (fun _ => holds_panic) fun _ => holds_bind ask_has fun ok => ?_
  exact holds_ite (fun _ => holds_panic) fun _ => setFree_has i _ fun _ => rfl

theorem put_lock (i : Nat) :
    Holds lockContract n (putBody t i) (Has t none) (fun _ => Has t none) := by
  have hdrop : Holds lockContract n
      (do Code.modify fun s => s.dropCount i
          return none : M Ret) (Has t none) (fun _ => Has t none) :=
    holds_bind (setInode_has i _) fun _ => pure_has _
  refine holds_bind (read_has _) fun x => holds_ite (fun _ => hdrop) fun _ => ?_
  refine holds_ite (fun _ => ?_) fun _ => holds_ite (fun _ => ?_) fun _ => hdrop
  · refine holds_bind sleep_has fun _ => ?_
    exact holds_bind (freeInode_has i) fun _ => pure_has _
  · refine holds_bind (writeInode_has hcall i) fun _ => ?_
    refine holds_bind (waitOnInode_has hcall i) fun _ => ?_
    exact hcall (.put t i) (t, none)

theorem iput_has (i : Nat) :
    Holds lockContract n (iput t i) (Has t none) (fun _ => Has t none) := by
  have hput : Holds lockContract n
      (do let _ ← Code.call (.put t i)
          return () : M Unit) (Has t none) (fun _ => Has t none) :=
    holds_bind (hcall (.put t i) (t, none)) fun _ => pure_has _
  refine holds_bind (waitOnInode_has hcall i) fun _ => holds_bind (read_has _) fun x => ?_
  refine holds_ite (fun _ => holds_panic) fun _ => ?_
  refine holds_ite (fun _ => ?_) fun _ => ?_
  · exact holds_ite (fun _ => setInode_has i _) fun _ => setInode_has i _
  refine holds_ite (fun _ => setInode_has i _) fun _ => ?_
  cases x.blk with
  | none => exact hput
  | some dev =>
    refine holds_bind (syncDev_has hcall dev) fun _ => ?_
    exact holds_bind (waitOnInode_has hcall i) fun _ => hput

theorem scan_lock (dev nr empty : Nat) :
    Holds lockContract n (scanBody t dev nr empty) (Has t none) (fun _ => Has t none) := by
  refine holds_bind (read_has _) fun found => ?_
  cases found with
  | none =>
    refine holds_bind (R := fun _ => Has t none) (holds_atom (stable_has t none) ?_) fun _ => ?_
    · intro G x s O h _
      refine ⟨trivial, G x, ?_, h⟩
      rw [Function.update_eq_self]
      exact ⟨O.live, O.owner⟩
    · exact holds_bind (readInode_has hcall empty) fun _ => pure_has _
  | some i =>
    refine holds_bind (waitOnInode_has hcall i) fun _ => holds_bind (read_has _) fun x => ?_
    refine holds_ite (fun _ => hcall (.scan t dev nr empty) (t, none)) fun _ => ?_
    refine holds_bind (setInode_has i _) fun _ => ?_
    cases x.mounted with
    | some d =>
      refine holds_bind (iput_has hcall i) fun _ => ?_
      exact hcall (.scan t d rootIno empty) (t, none)
    | none => exact holds_bind (iput_has hcall empty) fun _ => pure_has _

end Procedures

theorem stable_enter (p : Proc) (k : Nat × Option Nat) : Stable lockContract (Enter p k) := by
  cases p <;> exact stable_has _ _

theorem call_lock (n : Nat) (p : Proc) (k : Nat × Option Nat) :
    Holds lockContract n (Code.call p) (Enter p k) (Leave p k) := by
  refine holds_call stable_enter ?_ n p k
  intro m hcall q j
  cases q with
  | waitOnBuffer b =>
    refine holds_bind (read_has _) fun lock => holds_ite (fun _ => ?_) fun _ => pure_has _
    exact holds_bind sleep_has fun _ => hcall (.waitOnBuffer b) j
  | waitOnInode t i => exact waitOnInode_lock hcall i
  | getblk t dev block => exact getblk_lock hcall dev block
  | clean t dev block b => exact clean_lock hcall dev block b
  | pass dev b => exact pass_lock hcall dev b
  | syncInodes t i => exact syncInodes_lock hcall i
  | empty t => exact empty_lock hcall
  | written t i => exact written_lock hcall i
  | scan t dev nr empty => exact scan_lock hcall dev nr empty
  | put t i => exact put_lock hcall i

/-! ## The calls -/

theorem iget_lock (dev nr : Nat) :
    Holds lockContract n (iget t dev nr) (Has t none) (fun _ => Has t none) := by
  refine holds_ite (fun _ => holds_panic) fun _ => ?_
  refine holds_bind (call_lock n (.empty t) (t, none)) fun empty => ?_
  cases empty with
  | none => exact pure_has _
  | some e => exact call_lock n (.scan t dev nr e) (t, none)

theorem newInode_lock (dev : Nat) :
    Holds lockContract n (newInode t dev) (Has t none) (fun _ => Has t none) := by
  refine holds_bind (call_lock n (.empty t) (t, none)) fun empty => ?_
  cases empty with
  | none => exact pure_has _
  | some e =>
    refine holds_bind ask_has fun super => holds_ite (fun _ => holds_panic) fun _ => ?_
    refine holds_bind (read_has _) fun j => ?_
    cases j with
    | none => exact holds_bind (iput_has (call_lock n) e) fun _ => pure_has _
    | some j => exact holds_bind (modify_has fun _ => rfl) fun _ => pure_has _

theorem starts_lock : Starts lockContract := by
  intro t p hp G s O hrest
  have hstart : ∀ {α : Type} {x : M α},
      (∀ n, Holds lockContract n x (Has t none) (fun _ => Has t none)) →
      Begins lockContract t G s x.toProg := by
    intro α x hx
    refine Holds.begins (g := some (t, none)) hx ?_ (fun _ => rfl) fun _ G'' t' s'' _ h x l hl => ?_
    · refine Owned.change O (fun j hj => ?_) fun _ _ _ hj => hj
      -- a task at rest owns no lock
      have h := hrest t _ (O.owner j t hj)
      cases h
    · rw [show G'' t' = some (t, none) from h] at hl
      cases hl
      rfl
  cases hp with
  | iget dev nr => exact hstart fun n => iget_lock dev nr
  | newInode dev hdev => exact hstart fun n => newInode_lock dev
  | iput i hi => exact hstart fun n => iput_has (call_lock n) i
  | sysSync =>
    refine hstart fun n => holds_bind (call_lock n (.syncInodes t 0) (t, none)) fun _ => ?_
    exact holds_bind (call_lock n (.pass none 0) (t, none)) fun _ => pure_has _
  | syncDev dev => exact hstart fun n => syncDev_has (call_lock n) dev

/-- Every state that is reached keeps the owners. -/
theorem owned_reach {s : State} (h0 : ∀ i, s.owner i = none) {c : Config State Tag Proc Ret}
    (h : kernel.Reach unlocked (Config.idle s) c) : ∃ G, Good lockContract 1 G c := by
  have hi : lockContract.inv (fun _ => none) s := by
    refine ⟨fun _ _ hg => (by cases hg), fun i t hi => ?_⟩
    rw [h0 i] at hi
    cases hi
  exact reach_idle starts_lock hi (fun _ _ _ hg => by cases hg) h

/-- **No task waits for its own inode lock.** In every run in which no `getblk` finds
its victim dirty while its task has an inode locked, a task that is about to wait for
an inode has no inode locked at all. -/
theorem no_self_wait {s : State} (h0 : ∀ i, s.owner i = none) {c : Config State Tag Proc Ret}
    (h : kernel.Reach unlocked (Config.idle s) c) {t x i : Nat} {u : State → State}
    {next : State → Prog State Tag Proc Ret} (hr : c.running = some x)
    (ht : c.tasks x = .act (some (.wait t i)) u next) (j : Nat) : c.shared.owner j ≠ some t := by
  obtain ⟨G, hG⟩ := owned_reach h0 h
  have hcheck := hG.check hr ht fun x hx => by
    cases hx
    trivial
  exact hcheck j

/-- **Whoever has an inode locked sleeps for buffers only.** A task that sleeps for an inode
has none locked; so no task waits for a task that waits for an inode, and what has locked an
inode goes on when the requests end. -/
theorem holder_waits_for_no_inode {s : State} (h0 : ∀ i, s.owner i = none)
    {c : Config State Tag Proc Ret} (h : kernel.Reach unlocked (Config.idle s) c)
    (hidle : c.running = none) {t x i j : Nat} {next : Ret → Prog State Tag Proc Ret}
    (howner : c.shared.owner i = some t) : c.tasks x ≠ .call (.waitOnInode t j) next := by
  intro hx
  -- woken, it would be about to wait again
  have hself : Function.update c.tasks x (waitOnInodeBody t j next) x = waitOnInodeBody t j next :=
    Function.update_self ..
  obtain ⟨G, hG⟩ := owned_reach h0 ((h.tail (.switch x hidle)).tail (.call rfl hx))
  have hcheck := hG.check rfl hself fun x hx => by
    cases hx
    trivial
  exact hcheck i howner

/-- An inode to be read when the only buffer is dirty: its block is not in the
cache. -/
def dirtyCache : State where
  inode := fun _ => Slot.zero
  last := 0
  bit := fun _ j => j < 5
  ninodes := fun _ => 10
  start := fun _ => 0
  buf := ⟨1, fun _ => ⟨2, 7, 0, false, true, true⟩, [0]⟩
  owner := fun _ => none

/-- A program about to make a tagged action. -/
theorem act_of_tagOf {p : Prog State Tag Proc Ret} {x : Tag} (h : tagOf p = some x) :
    ∃ u next, p = .act (some x) u next := by
  cases p with
  | act tag u next =>
    cases h
    exact ⟨u, next, rfl⟩
  | done => cases h
  | panic => cases h
  | sleep next => cases h
  | ask next => cases h
  | call q next => cases h

/-- The buffer has been written back. -/
def cleanCache : State := { dirtyCache with buf := ⟨1, fun _ => ⟨2, 7, 0, false, false, true⟩, [0]⟩ }

/-- No dirty victim at all, and a task stops before it has to wait for an inode. -/
def noFlush : Tag → State → Bool
  | .flush _, _ => false
  | .wait _ i, s => s.owner i == none
  | _, _ => true

theorem unlocked_of_noFlush : ∀ x s, noFlush x s = true → unlocked x s := by
  intro x s h
  cases x with
  | flush t => cases h
  | wait t i => trivial
  | reuse i => trivial
  | install i dev nr => trivial

/-- `iget` has locked an inode and reads its block into the buffer it has taken over, and
`sys_sync` of another task is about to wait for that inode. -/
theorem no_self_wait_sync :
    ∃ c : Config State Tag Proc Ret, kernel.Reach unlocked (Config.idle cleanCache) c ∧
      tagOf (c.tasks 1) = some (.wait 1 1) ∧ c.shared.owner 1 = some 0 ∧
        ∀ j, c.shared.owner j ≠ some 1 := by
  let script : List (Move State Tag Proc Ret Unit) :=
    [.start 0 (iget 0 1 3).toProg, .wake 0, .run 100, .answer 1, .run 100, .rest,
      .start 1 (sysSync 1).toProg, .wake 1, .run 100]
  have hplay : ((kernel.play noFlush (fun (_ : Unit) _ => none) script
      (Config.idle cleanCache)).map fun c => decide (c.running = some 1 ∧
        tagOf (c.tasks 1) = some (.wait 1 1) ∧ c.shared.owner 1 = some 0)) = some true := by
    decide +kernel
  have hops : ∀ q ∈ programs script, kernel.ops q.1 q.2 := by
    rintro q (_ | ⟨_, _ | ⟨_, ⟨⟩⟩⟩)
    · exact .iget 1 3
    · exact .sysSync
  obtain ⟨c, hreach, hat⟩ := exists_reach unlocked_of_noFlush (by simp) hops hplay
  obtain ⟨hr, htag, howner⟩ := of_decide_eq_true hat
  obtain ⟨u, next, hact⟩ := act_of_tagOf htag
  exact ⟨c, hreach, htag, howner, no_self_wait (fun _ => rfl) hreach hr hact⟩

/-- `iget` in that state: below `read_inode`, `getblk` writes the buffer back. -/
def readInDirtyCache : List (Move State Tag Proc Ret Unit) :=
  [.start 0 (iget 0 1 3).toProg, .wake 0, .run 100, .answer 1, .run 100, .rest, .wake 0, .run 200]

/-- A task goes on until it would wait for an inode it has locked. -/
def notMine : Tag → State → Bool
  | .wait t i, s => s.owner i != some t
  | _, _ => true

/-- `sync_inodes` is about to wait for the inode that `read_inode` has locked. -/
theorem self_wait :
    ¬ ∀ (s : State) (c : Config State Tag Proc Ret), (∀ i, s.owner i = none) →
        kernel.Reach (fun _ _ => True) (Config.idle s) c → ∀ t x i u next,
        c.running = some x → c.tasks x = .act (some (.wait t i)) u next →
        c.shared.owner i ≠ some t := by
  intro hclaim
  have hplay : ((kernel.play notMine (fun (_ : Unit) _ => none) readInDirtyCache
      (Config.idle dirtyCache)).map fun c => decide (c.running = some 0 ∧
        tagOf (c.tasks 0) = some (.wait 0 1) ∧ c.shared.owner 1 = some 0)) = some true := by
    decide +kernel
  have hops : ∀ q ∈ programs readInDirtyCache, kernel.ops q.1 q.2 := by
    rintro q (_ | ⟨_, ⟨⟩⟩)
    exact .iget 1 3
  obtain ⟨c, hreach, hat⟩ := exists_reach (fun _ _ _ => trivial) (by simp) hops hplay
  obtain ⟨hr, htag, howner⟩ := of_decide_eq_true hat
  obtain ⟨u, next, hact⟩ := act_of_tagOf htag
  exact hclaim dirtyCache c (fun _ => rfl) hreach 0 0 1 u next hr hact howner

end Linux011.Fs.Inodes
