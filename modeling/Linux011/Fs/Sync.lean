import Linux011.Lib.Action
import Linux011.Fs.SyncCache

/-!
# Sync — inodes and buffers

`sys_sync` writes the inodes in core into their buffers and the dirty buffers to the
disk; `sync_dev` does so for one device. Here the inode table is part of the state, and
the task is alone: it goes on only where it finds what it waits for.

What a `getblk` in the course of it may do is as in the cache: it may write back, and
then inodes of any content. The code would wait there for the inode it is writing.

* `writeInode`, `syncInodes`, `sysSync`, `syncDev` — the code;
* `syncInodes_ensures` — afterwards no inode but a pipe is dirty;
* `firstPass_ensures`, `lastPass_ensures` — what the passes over the buffers do;
* `sync_leaves_nothing` — when nothing is left to be written;
* `sync_leaves_dirty` — a buffer that is.
-/

namespace Linux011.Fs.Sync

open Linux011.Lib
open Linux011.Lib.Kernel
open Linux011.Lib.Action

/-! ## The code -/

/-- An inode in core. `record` are the 32 bytes of it that are on the disk; an inode of a
device has a number. -/
structure Inode where
  dev      : UInt16
  num      : UInt16
  lock     : Bool
  dirt     : Bool
  pipe     : Bool
  record   : Nat
  numbered : dev ≠ 0 → num ≠ 0

/-- A super block in core. -/
structure Super where
  dev        : UInt16
  lock       : Bool
  imapBlocks : UInt16
  zmapBlocks : UInt16

structure System where
  cache : Cache
  inode : Nat → Inode
  super : List Super

/-- All requests succeed. -/
def syncKernel : Kernel Cache Tag Proc Ret := kernel False fun _ _ => True

/-- Code of the cache. -/
def cached {α : Type} (x : M α) : Action System α := fun s a s' =>
  ∃ l c, syncKernel.Returns x s.cache l a c ∧ s' = { s with cache := c }

def setInode (i : Nat) (f : Inode → Inode) : Action System Unit :=
  modify fun s => { s with inode := Function.update s.inode i (f (s.inode i)) }

/-- `wait_on_inode`. -/
def waitOnInode (i : Nat) : Action System Unit := waitFor fun s => (s.inode i).lock = false

/-- `lock_inode`. -/
def lockInode (i : Nat) : Action System Unit := do
  waitOnInode i
  setInode i fun inode => { inode with lock := true }

/-- `unlock_inode`. -/
def unlockInode (i : Nat) : Action System Unit :=
  setInode i fun inode => { inode with lock := false }

/-- `get_super`. -/
def getSuper (dev : UInt16) : Action System (Option Super) := do
  if dev = 0 then pure none
  else do
    match ← read fun s => s.super.find? fun sb => sb.dev = dev with
    | none => pure none
    | some sb => do
      waitFor fun _ => sb.lock = false
      pure (some sb)

/-- `INODES_PER_BLOCK`. -/
def inodesPerBlock : UInt16 := 32

/-- `write_inode`. -/
def writeInode (i : Nat) : Action System Unit := do
  lockInode i
  let inode ← read fun s => s.inode i
  if inode.dirt = false ∨ inode.dev = 0 then unlockInode i
  else do
    match ← getSuper inode.dev with
    | none => panic
    | some sb => do
      let block := 2 + sb.imapBlocks.toUInt32 + sb.zmapBlocks.toUInt32 +
        ((inode.num - 1) / inodesPerBlock).toUInt32
      match ← cached (bread inode.dev block) with
      | none => panic
      | some bh => do
        modify fun s => { s with
          cache := s.cache.putInode bh ((inode.num - 1) % inodesPerBlock).toNat inode.record }
        setInode i fun inode => { inode with dirt := false }
        cached (brelse bh)
        unlockInode i

/-- `sync_inodes`. -/
def syncInodes : Action System Unit :=
  (List.range nrInode).forM fun i => do
    waitOnInode i
    let inode ← read fun s => s.inode i
    if inode.dirt = true ∧ inode.pipe = false then writeInode i else pure ()

/-- The loop over the buffers, of one device or of all. -/
def syncBuffers (dev : Option UInt16) : Action System Unit := do
  let _ ← cached (Code.call (Proc.syncPass dev 0))

/-- `sys_sync`. -/
def sysSync : Action System Unit := do
  syncInodes
  syncBuffers none

/-- `sync_dev`. -/
def syncDev (dev : UInt16) : Action System Unit := do
  syncBuffers (some dev)
  syncInodes
  syncBuffers (some dev)

/-- The requests that are queued end. -/
structure Completed (s s' : System) : Prop where
  env   : syncKernel.Env s.cache s'.cache
  inode : s'.inode = s.inode
  done  : ∀ i, s'.cache.request i = none

/-- Code of the cache changes nothing else. -/
theorem ensures_cached {α : Type} {x : M α} {A : Cache → Prop} {B : α → Cache → Prop}
    {R : (Nat → Inode) → List Super → Prop}
    (hx : ∀ n, Alone syncKernel (fun _ _ => True) n x A B) (hA : Lasts syncKernel A) :
    Ensures (cached x) (fun s => A s.cache ∧ R s.inode s.super)
      fun a s => B a s.cache ∧ R s.inode s.super := by
  intro s a s' hs ⟨l, c, hret, hs'⟩
  rw [hs']
  exact ⟨Alone.returns hx hA hs.1 (fun _ _ => trivial) hret, hs.2⟩

/-! ## The inodes -/

/-- The cache is in order, as far as it goes without the tables: a request is for a locked
buffer, which has no other, and for the block it carries. What is up to date has the bytes
of its block, unless it is dirty or requested. Devices with a super block, or with inodes
in core, have a driver; there is none for major 0. -/
structure InOrder (N : Nat) (s : System) : Prop where
  shape   : Shape N s.cache
  noDev   : s.cache.requestFn 0 = false
  core    : ∀ dev, s.cache.mounted dev = true → HasDriver s.cache.requestFn dev
  super   : ∀ sb, sb ∈ s.super → sb.dev ≠ 0 → HasDriver s.cache.requestFn sb.dev
  pending : ∀ i r, s.cache.request i = some r → r.bh < N ∧ s.cache.buf.lock r.bh = true ∧
    s.cache.buf.dev r.bh = r.dev ∧ s.cache.buf.blocknr r.bh = r.block ∧
      HasDriver s.cache.requestFn r.dev
  single  : ∀ i j r r', s.cache.request i = some r → s.cache.request j = some r' →
    r.bh = r'.bh → i = j
  same    : ∀ h, h < N → s.cache.buf.uptodate h = true → s.cache.buf.dirt h = true ∨
    (∃ i r, s.cache.request i = some r ∧ r.bh = h) ∨
      s.cache.data h = s.cache.disk (s.cache.buf.dev h) (s.cache.buf.blocknr h)

/-- The device is mounted. -/
def Mounted (s : System) (dev : UInt16) : Prop := dev ≠ 0 ∧ ∃ sb, sb ∈ s.super ∧ sb.dev = dev

/-- The inodes below `k` have been written; `t₀` is the system before. -/
structure Progress (t₀ : System) (k : Nat) (t : Nat → Inode) (super : List Super) : Prop where
  super : super = t₀.super
  dev   : ∀ j, (t j).dev = (t₀.inode j).dev
  pipe  : ∀ j, (t j).pipe = (t₀.inode j).pipe
  dirt  : ∀ j, (t j).dirt = true → (t₀.inode j).dirt = true
  done  : ∀ j, j < k → (t j).pipe = false → (t j).dirt = false

variable {N : Nat} {s s' s'' t₀ : System} {s₀ : Cache}

theorem InOrder.sound (W : InOrder N s) : Sound N s.cache s.cache where
  shape := W.shape
  noDev := W.noDev
  table := rfl
  mounted := rfl
  core := W.core
  pending i r hr := by
    obtain ⟨h1, -, h2, h3, h4⟩ := W.pending i r hr
    exact ⟨h1, h2, h3, h4⟩
  same := W.same
  fresh h _ hd := Or.inr ⟨hd, rfl⟩
  stuck h _ hd := Or.inr ⟨hd, rfl⟩
  locked i r hr := (W.pending i r hr).2.1
  single := W.single

theorem progress_start (s : System) : Progress s 0 s.inode s.super :=
  ⟨rfl, fun _ => rfl, fun _ => rfl, fun _ h => h, fun _ h => absurd h (Nat.not_lt_zero _)⟩

/-- A change of an inode that does not make it dirty. -/
theorem Progress.set {k : Nat} {t : Nat → Inode} {super : List Super} (p : Progress t₀ k t super)
    (i : Nat) {f : Inode → Inode} (hdev : (f (t i)).dev = (t i).dev)
    (hpipe : (f (t i)).pipe = (t i).pipe) (hdirt : (f (t i)).dirt = true → (t i).dirt = true) :
    Progress t₀ k (Function.update t i (f (t i))) super := by
  have hcases : ∀ j, (Function.update t i (f (t i)) j).dev = (t j).dev ∧
      (Function.update t i (f (t i)) j).pipe = (t j).pipe ∧
        ((Function.update t i (f (t i)) j).dirt = true → (t j).dirt = true) := by
    intro j
    by_cases hj : j = i
    · rw [hj, Function.update_self]
      exact ⟨hdev, hpipe, hdirt⟩
    · rw [Function.update_of_ne hj]
      exact ⟨rfl, rfl, id⟩
  refine ⟨p.super, fun j => (hcases j).1.trans (p.dev j), fun j => (hcases j).2.1.trans (p.pipe j),
    fun j h => p.dirt j ((hcases j).2.2 h), fun j hj hp => ?_⟩
  rw [(hcases j).2.1] at hp
  have hclean := p.done j hj hp
  cases hd : (Function.update t i (f (t i)) j).dirt with
  | false => rfl
  | true => rw [(hcases j).2.2 hd] at hclean; cases hclean

/-- One inode more. -/
theorem Progress.next {k : Nat} {t : Nat → Inode} {super : List Super} (p : Progress t₀ k t super)
    (h : (t k).pipe = false → (t k).dirt = false) : Progress t₀ (k + 1) t super := by
  refine { p with done := fun j hj hp => ?_ }
  rcases Nat.lt_succ_iff_lt_or_eq.mp hj with hj | rfl
  · exact p.done j hj hp
  · exact h hp

section Inodes

/-- The state while the inodes are written. -/
abbrev Writing (N : Nat) (s₀ : Cache) (t₀ : System) (k : Nat) (s : System) : Prop :=
  Sound N s₀ s.cache ∧ Progress t₀ k s.inode s.super

variable {k : Nat}

theorem setInode_ensures (i : Nat) {f : Inode → Inode} {P : Cache → Prop}
    (hf : ∀ x, (f x).dev = x.dev ∧ (f x).pipe = x.pipe ∧ ((f x).dirt = true → x.dirt = true)) :
    Ensures (setInode i f) (fun s => P s.cache ∧ Progress t₀ k s.inode s.super)
      fun _ s => P s.cache ∧ Progress t₀ k s.inode s.super :=
  ensures_modify fun _ h => ⟨h.1, h.2.set i (hf _).1 (hf _).2.1 (hf _).2.2⟩

theorem getSuper_ensures (dev : UInt16) {P : System → Prop} :
    Ensures (getSuper dev) P fun r s => P s ∧ ∀ sb, r = some sb → Mounted s dev := by
  refine ensures_ite ?_ fun hdev => ?_
  · exact fun _ => ensures_pure fun s h => ⟨h, fun sb hsb => by cases hsb⟩
  · refine ensures_bind (ensures_read _) fun r => ?_
    cases r with
    | none => exact ensures_pure fun s h => ⟨h.1, fun sb hsb => by cases hsb⟩
    | some sb =>
      refine ensures_bind ensures_waitFor fun _ => ensures_pure fun s h => ⟨h.1, fun _ _ => ?_⟩
      have hsb := List.find?_some h.2.symm
      exact ⟨hdev, sb, List.mem_of_find?_eq_some h.2.symm, by simpa using hsb⟩

/-- **`write_inode`**: the inode is clean afterwards, unless it is of no device. -/
theorem writeInode_ensures (hdriver : ∀ dev, Mounted t₀ dev → HasDriver s₀.requestFn dev) {i : Nat}
    (hdev : (t₀.inode i).dirt = true → (t₀.inode i).pipe = false → (t₀.inode i).dev ≠ 0) :
    Ensures (writeInode i) (Writing N s₀ t₀ i) fun _ => Writing N s₀ t₀ (i + 1) := by
  have hunlock : Ensures (unlockInode i) (Writing N s₀ t₀ (i + 1))
      fun _ => Writing N s₀ t₀ (i + 1) :=
    setInode_ensures i fun x => ⟨rfl, rfl, id⟩
  have hlock : Ensures (lockInode i) (Writing N s₀ t₀ i) fun _ => Writing N s₀ t₀ i :=
    ensures_bind ensures_waitFor fun _ => setInode_ensures i fun x => ⟨rfl, rfl, id⟩
  refine ensures_bind hlock fun _ => ensures_bind (ensures_read _) fun inode => ensures_ite ?_ ?_
  · -- it is clean, or of no device and then a pipe
    intro hno
    refine hunlock.pre fun s h => ⟨h.1.1, h.1.2.next fun hp => ?_⟩
    obtain ⟨⟨-, p⟩, rfl⟩ := h
    rcases hno with hclean | h0
    · exact hclean
    · by_contra hd
      rw [p.pipe] at hp
      rw [p.dev] at h0
      exact hdev (p.dirt i (by simpa using hd)) hp h0
  · intro _
    refine ensures_bind ((getSuper_ensures inode.dev).pre fun _ h => h.1) fun r => ?_
    cases r with
    | none => exact ensures_panic
    | some sb =>
      refine ensures_fact (p := HasDriver s₀.requestFn inode.dev) (fun hd => ?_) fun s h => ?_
      · refine ensures_bind (R := fun r s => Keyed N s₀ (Carries N inode.dev _ r) s.cache ∧
          Progress t₀ i s.inode s.super) ((ensures_cached
            (fun n => bread_keeps (keeps_call n) inode.dev _) lasts_sound).pre fun _ h => h.1)
          fun r => ?_
        cases r with
        | none => exact ensures_panic
        | some bh =>
          refine ensures_bind (R := fun _ => Writing N s₀ t₀ i)
            (ensures_modify fun s h => ⟨h.1.1.putInode ?_ _ _, h.2⟩) fun _ => ?_
          · rw [(h.1.2 bh rfl).2.1]
            exact hd
          · refine ensures_bind (R := fun _ => Writing N s₀ t₀ (i + 1)) (ensures_modify ?_)
              fun _ => ensures_bind ?_ fun _ => hunlock
            · intro s h
              refine ⟨h.1, (h.2.set i (f := fun x => { x with dirt := false }) rfl rfl
                fun h => (by cases h)).next fun _ => ?_⟩
              rw [Function.update_self]
            · refine Ensures.pre (ensures_cached (A := Keyed N s₀ fun _ _ => True)
                (fun n => (brelse_keeps bh).conseq (fun _ h => h) fun _ _ h => h.1) lasts_keyed) ?_
              exact fun s h => ⟨⟨h.1, trivial⟩, h.2⟩
      · obtain ⟨hne, sb', hmem, hsb⟩ := h.2 sb rfl
        rw [h.1.2.super] at hmem
        exact hdriver inode.dev ⟨hne, sb', hmem, hsb⟩

/-- **`sync_inodes`**: no inode but a pipe is dirty afterwards. -/
theorem syncInodes_ensures (hdriver : ∀ dev, Mounted t₀ dev → HasDriver s₀.requestFn dev)
    (hdev : ∀ i, i < nrInode → (t₀.inode i).dirt = true → (t₀.inode i).pipe = false →
      (t₀.inode i).dev ≠ 0) :
    Ensures syncInodes (Writing N s₀ t₀ 0) fun _ => Writing N s₀ t₀ nrInode := by
  unfold syncInodes
  rw [List.range_eq_range']
  refine ensures_range nrInode 0 fun i hi => ?_
  rw [Nat.zero_add] at hi
  refine ensures_bind ensures_waitFor fun _ => ensures_bind (ensures_read _) fun inode => ?_
  refine ensures_ite (fun _ => (writeInode_ensures hdriver (hdev i hi)).pre fun _ h => h.1) ?_
  intro hno
  refine ensures_pure fun s h => ⟨h.1.1, h.1.2.next fun hp => ?_⟩
  obtain ⟨-, rfl⟩ := h
  by_contra hd
  exact hno ⟨by simpa using hd, hp⟩

/-! ## The buffers -/

/-- A pass takes no buffer over. -/
theorem undisturbed_coherent (dv : Nat → UInt16) :
    Undisturbed False (fun _ _ => True) s₀.requestFn dv N fun s =>
      Coherent N s₀ s ∧ s.buf.dev = dv := by
  refine ⟨fun s h => h.1.table, fun s h => h.2, fun s h => h.1.shape.nr, ?_, ?_, ?_⟩
  · intro s s' h he
    refine ⟨h.1.completes he, ?_⟩
    rw [(sameKeys_of_eq (queues_completes he)).1]
    exact h.2
  · exact fun s bh b h => ⟨h.1.relock b, h.2⟩
  · intro s i bh ⟨C, hdv⟩ hbh hd _ hi _
    refine ⟨C.addRequest hbh ?_ hi true, hdv⟩
    rw [hdv]
    exact hd

/-- After the last pass. -/
structure Passed (N : Nat) (s₀ : Cache) (dev : Option UInt16) (s : Cache) : Prop where
  coherent : Coherent N s₀ s
  cleaned  : Cleaned s₀.requestFn s.buf.dev dev N N s

theorem Passed.env {dev : Option UInt16} {c c' : Cache} (p : Passed N s₀ dev c)
    (he : syncKernel.Env c c') : Passed N s₀ dev c' := by
  have U : Undisturbed False (fun _ _ => True) s₀.requestFn c.buf.dev N fun s =>
      (Coherent N s₀ s ∧ s.buf.dev = c.buf.dev) ∧ Cleaned s₀.requestFn c.buf.dev dev N N s :=
    (undisturbed_coherent c.buf.dev).cleaned dev N
  have hlasts : Lasts syncKernel _ := U.lasts
  obtain ⟨⟨C, hdv⟩, hclean⟩ := hlasts.env ⟨⟨p.coherent, rfl⟩, p.cleaned⟩ he
  refine ⟨C, ?_⟩
  rw [hdv]
  exact hclean

/-- Before the inodes are written. -/
theorem firstPass_ensures (dev : Option UInt16) :
    Ensures (syncBuffers dev) (Writing N s₀ t₀ k) fun _ => Writing N s₀ t₀ k :=
  ensures_bind (ensures_cached (fun n => keeps_call n (.syncPass dev 0)) lasts_sound)
    fun _ => ensures_pure fun _ h => h

/-- **The last pass** leaves no buffer dirty that it is about and that has a driver. -/
theorem lastPass_ensures (dev : Option UInt16) :
    Ensures (syncBuffers dev) (Writing N s₀ t₀ k) fun _ s =>
      Passed N s₀ dev s.cache ∧ Progress t₀ k s.inode s.super := by
  refine ensures_bind (R := fun _ s => Passed N s₀ dev s.cache ∧ Progress t₀ k s.inode s.super) ?_
    fun _ => ensures_pure fun _ h => h
  intro s a s' ⟨S, p⟩ ⟨l, c, hret, hs'⟩
  have U : Undisturbed False (fun _ _ => True) s₀.requestFn s.cache.buf.dev N fun c =>
      Coherent N s₀ c ∧ c.buf.dev = s.cache.buf.dev := undisturbed_coherent s.cache.buf.dev
  obtain ⟨⟨C, hdv⟩, hclean⟩ := Alone.returns (fun n => syncPass_cleans U dev n) U.lasts
    ⟨S.toCoherent, rfl⟩ (fun _ _ => trivial) hret
  rw [hs']
  refine ⟨⟨C, ?_⟩, p⟩
  rw [hdv]
  exact hclean

end Inodes

/-! ## Nothing is left -/

/-- No inode in core but a pipe, and no buffer, is dirty, and what is up to date is on the disk;
of all devices or of one. -/
structure Synced (N : Nat) (dev : Option UInt16) (s : System) : Prop where
  inodes  : ∀ i, i < nrInode → (s.inode i).pipe = false → dev.all ((s.inode i).dev = ·) = true →
    (s.inode i).dirt = false
  buffers : ∀ h, h < N → dev.all (s.cache.buf.dev h = ·) = true → s.cache.buf.dirt h = false ∧
    (s.cache.buf.uptodate h = true →
      s.cache.data h = s.cache.disk (s.cache.buf.dev h) (s.cache.buf.blocknr h))

/-- The dirty buffers of all devices, or of one, can be written. -/
def Writable (N : Nat) (dev : Option UInt16) (c : Cache) : Prop :=
  ∀ h, h < N → dev.all (c.buf.dev h = ·) = true → c.buf.dirt h = true →
    HasDriver c.requestFn (c.buf.dev h)

/-- When the requests have ended. -/
theorem synced_iff {dev : Option UInt16} (p : Passed N s₀ dev s''.cache)
    (hinodes : ∀ i, i < nrInode → (s''.inode i).pipe = false → (s''.inode i).dirt = false)
    (hdone : ∀ i, s''.cache.request i = none) : Synced N dev s'' ↔ Writable N dev s₀ := by
  constructor
  · intro h x hx hdev hd
    rcases p.coherent.stuck x hx hd with hdriver | ⟨hdirt, hkey⟩
    · exact hdriver
    · -- it would be dirty still
      rw [← hkey] at hdev
      rw [(h.buffers x hx hdev).1] at hdirt
      cases hdirt
  · intro hw
    refine ⟨fun i hi hp _ => hinodes i hi hp, fun h hh hdev => ?_⟩
    have hclean : s''.cache.buf.dirt h = false := by
      by_contra hd
      have hd : s''.cache.buf.dirt h = true := by simpa using hd
      have hdriver : HasDriver s₀.requestFn (s''.cache.buf.dev h) := by
        rcases p.coherent.fresh h hh hd with h1 | ⟨h1, h2⟩
        · exact h1
        · rw [← h2] at hdev ⊢
          exact hw h hh hdev h1
      rw [p.cleaned h hh hh hdev hdriver] at hd
      cases hd
    refine ⟨hclean, fun hu => ?_⟩
    rcases p.coherent.same h hh hu with h1 | ⟨i, r, hr, -⟩ | h1
    · rw [hclean] at h1
      cases h1
    · rw [hdone i] at hr
      cases hr
    · exact h1

/-- **Sync leaves nothing behind**, of all devices or of one, if and only if each dirty buffer
concerned is of a device with a driver: once the requests are done, what was
written is on the disks. -/
theorem sync_leaves_nothing (W : InOrder N s)
    (hmounted : ∀ i, i < nrInode → (s.inode i).dirt = true → (s.inode i).pipe = false →
      Mounted s (s.inode i).dev) (hdone : Completed s' s'') :
    (sysSync s () s' → (Synced N none s'' ↔ Writable N none s.cache)) ∧
      ∀ dev, syncDev dev s () s' →
        (Synced N (some dev) s'' ↔ Writable N (some dev) s.cache) := by
  have hstart : Writing N s.cache s 0 s := ⟨W.sound, progress_start s⟩
  have hdriver : ∀ dev, Mounted s dev → HasDriver s.cache.requestFn dev := by
    rintro dev ⟨hdev, sb, hsb, rfl⟩
    exact W.super sb hsb hdev
  have hinodes : Ensures syncInodes (Writing N s.cache s 0) fun _ => Writing N s.cache s nrInode :=
    syncInodes_ensures hdriver fun i hi hd hp => (hmounted i hi hd hp).1
  have hend : ∀ dev, Passed N s.cache dev s'.cache ∧ Progress s nrInode s'.inode s'.super →
      (Synced N dev s'' ↔ Writable N dev s.cache) := by
    intro dev ⟨p, q⟩
    refine synced_iff (p.env hdone.env) (fun i hi hp => ?_) hdone.done
    rw [hdone.inode] at hp ⊢
    exact q.done i hi hp
  constructor
  · intro hrun
    have hsync : Ensures sysSync (Writing N s.cache s 0) _ :=
      ensures_bind hinodes fun _ => lastPass_ensures none
    exact hend none (hsync s () s' hstart hrun)
  · intro dev hrun
    have hsync : Ensures (syncDev dev) (Writing N s.cache s 0) _ :=
      ensures_bind (firstPass_ensures (some dev)) fun _ =>
        ensures_bind hinodes fun _ => lastPass_ensures (some dev)
    exact hend (some dev) (hsync s () s' hstart hrun)

/-! ## A buffer that is left -/

/-- A cache of three buffers; the first is of block 0 of the device, and dirty. -/
def dirtyCache (dev : UInt16) : Cache := ((zeroCache.boot 3).takeover 0 dev 0).setDirt 0 true

/-- It is the whole system: no inode is in use. -/
def dirtySystem (dev : UInt16) : System :=
  ⟨dirtyCache dev, fun _ => ⟨0, 0, false, false, false, 0, fun h => absurd rfl h⟩, []⟩

/-- The pass over its buffers, up to `n` steps. -/
def passes (n : Nat) (dev : UInt16) (k : Ret → Prog Cache Tag Proc Ret) :
    Prog Cache Tag Proc Ret × List (Tag × Cache) × Cache :=
  syncKernel.advance n (Code.call (Proc.syncPass none 0) k) (dirtyCache dev)

theorem inOrder_dirty (dev : UInt16) : InOrder 3 (dirtySystem dev) := by
  have hnew : dev ≠ 0 → ∀ h, h < 3 → ¬ ((bufferInit 3 zeroCache.buf).dev h = dev ∧
      (bufferInit 3 zeroCache.buf).blocknr h = 0) := by
    intro hdev h hh hkey
    have h0 := ((initHeads 3 { zeroCache.buf with nrBuffers := 3 }).2 h hh).1
    rw [← hkey.1] at hdev
    exact hdev h0
  have Q := queues_bufferInit (n := 3) (by decide) zeroCache.buf
  have hlt : 0 < (bufferInit 3 zeroCache.buf).nrBuffers := by decide
  obtain ⟨b, hb, T, Q'⟩ := takeover_queues Q hlt hnew
  have hcache : dirtyCache dev = { zeroCache.boot 3 with buf := b }.setDirt 0 true := by
    have hboot : (zeroCache.boot 3).buf = bufferInit 3 zeroCache.buf := rfl
    rw [dirtyCache, Cache.takeover, hboot, hb]
    rfl
  have hshape : Shape 3 { zeroCache.boot 3 with buf := b } := ⟨T.nrBuffers, _, _, Q'⟩
  have hstale : ∀ h, h < 3 → (dirtyCache dev).buf.uptodate h = false := by
    intro h hh
    rw [hcache]
    show b.uptodate h = false
    rw [T.uptodate, Function.update_apply]
    split
    · rfl
    · exact initHeads_uptodate 3 _ h hh
  refine ⟨?_, rfl, fun _ h => (by cases h), fun _ h => (by cases h), fun _ _ h => (by cases h),
    fun _ _ _ _ h => (by cases h), fun h hh hu => ?_⟩
  · show Shape 3 (dirtyCache dev)
    rw [hcache]
    exact hshape.of_eq rfl
  · have hu : (dirtyCache dev).buf.uptodate h = true := hu
    rw [hstale h hh] at hu
    cases hu

/-- No inode is to be written. -/
theorem syncInodes_clean (h : ∀ i, (s.inode i).lock = false ∧ (s.inode i).dirt = false) :
    syncInodes s () s := by
  have hall : ∀ l : List Nat, (l.forM fun i => do
      waitOnInode i
      let inode ← read fun s => s.inode i
      if inode.dirt = true ∧ inode.pipe = false then writeInode i else pure () : Action System Unit)
        s () s := by
    intro l
    induction l with
    | nil => exact ⟨rfl, rfl⟩
    | cons i l ih =>
      have hclean : ¬ ((s.inode i).dirt = true ∧ (s.inode i).pipe = false) := by
        rw [(h i).2]
        simp
      have hskip : (if (s.inode i).dirt = true ∧ (s.inode i).pipe = false then writeInode i
          else pure ()) s () s := by
        rw [if_neg hclean]
        exact ⟨rfl, rfl⟩
      exact ⟨(), s, ⟨(), s, ⟨(h i).1, rfl⟩, s.inode i, s, ⟨rfl, rfl⟩, hskip⟩, ih⟩
  exact hall _

theorem sysSync_dirty {n : Nat} {dev : UInt16} (hend : ∀ k, (passes n dev k).1 = k none)
    (hlog : ∀ k, (passes n dev k).2 = (passes n dev fun _ => .done).2) :
    sysSync (dirtySystem dev) ()
      { dirtySystem dev with cache := (passes n dev fun _ => .done).2.2 } := by
  refine ⟨(), dirtySystem dev, syncInodes_clean fun _ => ⟨rfl, rfl⟩, none, _,
    ⟨(passes n dev fun _ => .done).2.1, (passes n dev fun _ => .done).2.2, ?_, rfl⟩, rfl, rfl⟩
  intro k
  have hpath := path_advance syncKernel n (Code.call (Proc.syncPass none 0) k) (dirtyCache dev)
  have hend : (syncKernel.advance n (Code.call (Proc.syncPass none 0) k) (dirtyCache dev)).1 =
    k none := hend k
  have hlog : (syncKernel.advance n (Code.call (Proc.syncPass none 0) k) (dirtyCache dev)).2 =
    (passes n dev fun _ => .done).2 := hlog k
  rw [hend, hlog] at hpath
  exact hpath

set_option maxRecDepth 4000 in
theorem sync_leaves_nothing_disk : ∃ s' s'', sysSync (dirtySystem 0x301) () s' ∧
    Completed s' s'' ∧ Synced 3 none s'' := by
  have hrun : sysSync (dirtySystem 0x301) () _ :=
    @sysSync_dirty 26 0x301 (fun _ => rfl) fun _ => rfl
  set c := (passes 26 0x301 fun _ => .done).2.2 with hc
  have hdone : Completed { dirtySystem 0x301 with cache := c } { dirtySystem 0x301 with
      cache := c.endRequest 20 ⟨true, 0, 0x301, 0⟩ true fun _ => 0 } := by
    have hends : Completes False c (c.endRequest 20 ⟨true, 0, 0x301, 0⟩ true fun _ => 0) :=
      ⟨20, ⟨true, 0, 0x301, 0⟩, true, _, by decide, rfl, fun h => (by cases h), rfl⟩
    refine ⟨.single hends, rfl, ?_⟩
    · intro i
      show Function.update c.request 20 none i = none
      have hreq : c.request = Function.update (fun _ => none) 20 (some ⟨true, 0, 0x301, 0⟩) := rfl
      rw [hreq, Function.update_idem]
      simp
  refine ⟨_, _, hrun, hdone, ?_⟩
  refine ((sync_leaves_nothing (inOrder_dirty 0x301) ?_ hdone).1 hrun).mpr ?_
  · exact fun i _ h => by cases h
  · -- the one dirty buffer is of the disk
    have hdirty : ∀ h, h < 3 → (dirtyCache 0x301).buf.dirt h = true →
        (dirtyCache 0x301).buf.dev h = 0x301 := by
      decide +kernel
    intro h hh _ hd
    rw [show (dirtySystem 0x301).cache.buf.dev h = 0x301 from hdirty h hh hd]
    exact ⟨by decide, rfl⟩

set_option maxRecDepth 4000 in
/-- **A buffer of a device without a driver stays dirty**: block 0 of the printer's number. -/
theorem sync_leaves_dirty :
    ¬ ∀ (N : Nat) (s s' s'' : System), InOrder N s →
      (∀ i, i < nrInode → (s.inode i).dirt = true → (s.inode i).pipe = false →
        Mounted s (s.inode i).dev) →
      sysSync s () s' → Completed s' s'' → Synced N none s'' := by
  intro hall
  have hrun : sysSync (dirtySystem 0x600) () _ :=
    @sysSync_dirty 18 0x600 (fun _ => rfl) fun _ => rfl
  have hend := hall 3 _ _ _ (inOrder_dirty 0x600) (fun i _ h => by cases h) hrun
    ⟨.refl, rfl, fun i => rfl⟩
  have hclean : (passes 18 0x600 fun _ => .done).2.2.buf.dirt 0 = false :=
    (hend.buffers 0 (by decide) rfl).1
  have hdirty : (passes 18 0x600 fun _ => .done).2.2.buf.dirt 0 = true := by
    decide +kernel
  rw [hdirty] at hclean
  cases hclean

end Linux011.Fs.Sync
