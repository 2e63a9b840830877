import Linux011.Fs.BlockDev
import Linux011.Fs.SyncPass

/-!
# Sync — the buffers and the disk

What the cache and the disk have in common while a task runs alone and all requests
succeed: a buffer that is up to date has the bytes of its block, unless it is dirty or
its request is pending. A dirty buffer of a device without a driver stays as it is.

* `Coherent` — the above, for a run that began in `s₀`;
* `Sound` — and the requests are for locked buffers;
* `keeps_call` — every procedure that `bread` and `sync_dev` need keeps it;
* `bread_keeps` — `bread` gives a buffer of its block.
-/

namespace Linux011.Fs.Sync

open Linux011.Lib
open Linux011.Lib.Kernel

/-- The run began in `s₀`; nothing is known of locks. -/
structure Coherent (N : Nat) (s₀ s : Cache) : Prop where
  shape   : Shape N s
  noDev   : s₀.requestFn 0 = false
  table   : s.requestFn = s₀.requestFn
  mounted : s.mounted = s₀.mounted
  core    : ∀ dev, s₀.mounted dev = true → HasDriver s₀.requestFn dev
  pending : ∀ i r, s.request i = some r → r.bh < N ∧ s.buf.dev r.bh = r.dev ∧
    s.buf.blocknr r.bh = r.block ∧ HasDriver s₀.requestFn r.dev
  same    : ∀ h, h < N → s.buf.uptodate h = true → s.buf.dirt h = true ∨
    (∃ i r, s.request i = some r ∧ r.bh = h) ∨
      s.data h = s.disk (s.buf.dev h) (s.buf.blocknr h)
  fresh   : ∀ h, h < N → s.buf.dirt h = true → HasDriver s₀.requestFn (s.buf.dev h) ∨
    s₀.buf.dirt h = true ∧ s₀.buf.dev h = s.buf.dev h
  stuck   : ∀ h, h < N → s₀.buf.dirt h = true → HasDriver s₀.requestFn (s₀.buf.dev h) ∨
    s.buf.dirt h = true ∧ s.buf.dev h = s₀.buf.dev h

/-- The buffer of a request is locked, and has no other. -/
structure Sound (N : Nat) (s₀ s : Cache) : Prop extends Coherent N s₀ s where
  locked : ∀ i r, s.request i = some r → s.buf.lock r.bh = true
  single : ∀ i j r r', s.request i = some r → s.request j = some r' → r.bh = r'.bh → i = j

/-- The task has locked `bh`, whose device has a driver, for a request. -/
structure Held (N : Nat) (s₀ : Cache) (bh : Nat) (s : Cache) : Prop extends Sound N s₀ s where
  head   : bh < N
  driver : HasDriver s₀.requestFn (s.buf.dev bh)
  lock   : s.buf.lock bh = true
  idle   : ∀ i r, s.request i = some r → r.bh ≠ bh

variable {N bh : Nat} {s₀ s s' : Cache}

/-! ## Steps -/

theorem Coherent.not_noDev (C : Coherent N s₀ s) {dev : UInt16}
    (hd : HasDriver s₀.requestFn dev) : dev ≠ 0 := by
  rintro rfl
  have h0 : s₀.requestFn 0 = true := hd.2
  rw [C.noDev] at h0
  cases h0

/-- Locks and counts are no part of it. -/
theorem Coherent.relock (C : Coherent N s₀ s) (b : Bool) : Coherent N s₀ (s.setLock bh b) :=
  { C with shape := C.shape.of_eq rfl }

theorem Coherent.recount (C : Coherent N s₀ s) (c : Nat) : Coherent N s₀ (s.setCount bh c) :=
  { C with shape := C.shape.of_eq rfl }

/-- **A request ends.** The buffer and the block have the same bytes now. -/
theorem Coherent.endRequest (C : Coherent N s₀ s) {i : Nat} {r : Request}
    (hr : s.request i = some r) (bytes : Nat → UInt8) :
    Coherent N s₀ (s.endRequest i r true bytes) := by
  have E := ended s i r true bytes
  have hqueues := queues_endRequest s i r true bytes
  obtain ⟨hdev, hblock⟩ := sameKeys_of_eq hqueues
  obtain ⟨hbh, hrd, hrb, hdriver⟩ := C.pending i r hr
  -- the disk changes where the buffer is written, and the buffer where it is read
  have hmoved : (s.endRequest i r true bytes).data r.bh =
      (s.endRequest i r true bytes).disk r.dev r.block := by
    unfold Cache.endRequest
    cases r.write <;> simp [Cache.setLock, Cache.setUptodate]
  have hothers : ∀ h, h < N → h ≠ r.bh →
      (s.endRequest i r true bytes).data h = s.data h ∧
        (s.endRequest i r true bytes).disk (s.buf.dev h) (s.buf.blocknr h) =
          s.disk (s.buf.dev h) (s.buf.blocknr h) := by
    intro h hh hne
    have hkey : ¬ (s.buf.dev h = r.dev ∧ s.buf.blocknr h = r.block) := by
      rintro ⟨h1, h2⟩
      refine hne (C.shape.unique hh hbh ?_ (h1.trans hrd.symm) (h2.trans hrb.symm))
      rw [h1]
      exact C.not_noDev hdriver
    unfold Cache.endRequest
    cases r.write with
    | true =>
      refine ⟨rfl, ?_⟩
      show Function.update s.disk r.dev
        (Function.update (s.disk r.dev) r.block (s.data r.bh)) _ _ = _
      rw [Function.update_apply]
      split
      · next h1 => rw [Function.update_of_ne fun h2 => hkey ⟨h1, h2⟩, h1]
      · rfl
    | false => exact ⟨Function.update_of_ne hne .., rfl⟩
  refine ⟨C.shape.of_eq hqueues, C.noDev, E.requestFn.trans C.table, E.mounted.trans C.mounted, C.core,
    ?_, ?_, ?_, ?_⟩
  · intro j r' hr'
    rw [hdev, hblock]
    exact C.pending j r' (E.left hr').1
  · intro h hh hup
    rw [hdev, hblock]
    by_cases hne : h = r.bh
    · subst hne
      rw [hrd, hrb]
      exact Or.inr (Or.inr hmoved)
    · rw [E.uptodate, Function.update_of_ne hne] at hup
      obtain ⟨hdata, hdisk⟩ := hothers h hh hne
      rw [E.dirt, hdata, hdisk, E.request]
      rcases C.same h hh hup with h1 | ⟨j, r', hj, hb⟩ | h1
      · exact Or.inl h1
      · refine Or.inr (Or.inl ⟨j, r', ?_, hb⟩)
        rw [Function.update_of_ne]
        · exact hj
        · rintro rfl
          rw [hr] at hj
          cases hj
          exact hne hb.symm
      · exact Or.inr (Or.inr h1)
  · rw [E.dirt, hdev]
    exact C.fresh
  · rw [E.dirt, hdev]
    exact C.stuck

/-- An interrupt, when no request fails. -/
theorem Coherent.completes (C : Coherent N s₀ s) (he : Completes False s s') :
    Coherent N s₀ s' := by
  obtain ⟨i, r, u, bytes, -, hr, hu, rfl⟩ := he
  cases u with
  | false => exact (hu rfl).elim
  | true => exact C.endRequest hr bytes

/-- A request is queued; the buffer is clean from now on. -/
theorem Coherent.addRequest (C : Coherent N s₀ s) (hbh : bh < N)
    (hd : HasDriver s₀.requestFn (s.buf.dev bh)) {i : Nat} (hi : s.request i = none) (w : Bool) :
    Coherent N s₀ (s.addRequest i w bh) := by
  have hreq : (s.addRequest i w bh).request =
    Function.update s.request i (some ⟨w, bh, s.buf.dev bh, s.buf.blocknr bh⟩) := rfl
  have hdirt : (s.addRequest i w bh).buf.dirt = Function.update s.buf.dirt bh false := rfl
  refine ⟨C.shape.of_eq rfl, C.noDev, C.table, C.mounted, C.core, ?_, ?_, ?_, ?_⟩
  · intro j r hr
    rw [hreq, Function.update_apply] at hr
    split at hr
    · cases hr
      exact ⟨hbh, rfl, rfl, hd⟩
    · exact C.pending j r hr
  · intro h hh hu
    rw [hreq, hdirt]
    by_cases hne : h = bh
    · exact Or.inr (Or.inl ⟨i, _, Function.update_self .., hne.symm⟩)
    · rw [Function.update_of_ne hne]
      rcases C.same h hh hu with h1 | ⟨j, r, hj, hb⟩ | h1
      · exact Or.inl h1
      · refine Or.inr (Or.inl ⟨j, r, ?_, hb⟩)
        rw [Function.update_of_ne]
        · exact hj
        · rintro rfl
          rw [hi] at hj
          cases hj
      · exact Or.inr (Or.inr h1)
  · intro h hh hdirty
    rw [hdirt, Function.update_apply] at hdirty
    split at hdirty
    · cases hdirty
    · exact C.fresh h hh hdirty
  · intro h hh hdirty
    by_cases hne : h = bh
    · -- a buffer of a device without a driver would be dirty still
      subst hne
      rcases C.stuck h hh hdirty with h1 | ⟨-, h2⟩
      · exact Or.inl h1
      · rw [← h2]
        exact Or.inl hd
    · rw [hdirt, Function.update_of_ne hne]
      exact C.stuck h hh hdirty

/-- A clean head is taken over. -/
theorem Coherent.takeover (C : Coherent N s₀ s) {dev : UInt16} {block : UInt32} {b : Buffers}
    (hshape : Shape N { s with buf := b }) (T : TakenOver s.buf bh dev block b)
    (hidle : ∀ i r, s.request i = some r → r.bh ≠ bh) (hc : s.buf.dirt bh = false) :
    Coherent N s₀ { s with buf := b } := by
  refine ⟨hshape, C.noDev, C.table, C.mounted, C.core, ?_, ?_, ?_, ?_⟩
  · intro i r hr
    obtain ⟨h1, h2, h3, h4⟩ := C.pending i r hr
    dsimp only
    rw [T.dev, T.blocknr, Function.update_of_ne (hidle i r hr),
      Function.update_of_ne (hidle i r hr)]
    exact ⟨h1, h2, h3, h4⟩
  · intro h hh hu
    dsimp only at hu ⊢
    rw [T.uptodate, Function.update_apply] at hu
    split at hu
    · cases hu
    · next hne =>
      rw [T.dirt, T.dev, T.blocknr, Function.update_of_ne hne, Function.update_of_ne hne,
        Function.update_of_ne hne]
      exact C.same h hh hu
  · intro h hh hd
    dsimp only at hd ⊢
    rw [T.dirt, Function.update_apply] at hd
    split at hd
    · cases hd
    · next hne =>
      rw [T.dev, Function.update_of_ne hne]
      exact C.fresh h hh hd
  · intro h hh hd
    rcases C.stuck h hh hd with h1 | ⟨h1, h2⟩
    · exact Or.inl h1
    · have hne : h ≠ bh := by
        rintro rfl
        rw [hc] at h1
        cases h1
      dsimp only
      rw [T.dirt, T.dev, Function.update_of_ne hne, Function.update_of_ne hne]
      exact Or.inr ⟨h1, h2⟩

/-- An inode is written into a buffer of a device with a driver. -/
theorem Coherent.putInode (C : Coherent N s₀ s) (hd : HasDriver s₀.requestFn (s.buf.dev bh))
    (i v : Nat) : Coherent N s₀ (s.putInode bh i v) := by
  have hdirt : (s.putInode bh i v).buf.dirt = Function.update s.buf.dirt bh true := rfl
  refine ⟨C.shape.of_eq rfl, C.noDev, C.table, C.mounted, C.core, C.pending, ?_, ?_, ?_⟩
  · intro h hh hu
    rw [hdirt]
    by_cases hne : h = bh
    · rw [hne, Function.update_self]
      exact Or.inl rfl
    · rw [Function.update_of_ne hne]
      rcases C.same h hh hu with h1 | h1 | h1
      · exact Or.inl h1
      · exact Or.inr (Or.inl h1)
      · exact Or.inr (Or.inr ((Function.update_of_ne hne ..).trans h1))
  · intro h hh hdirty
    by_cases hne : h = bh
    · rw [hne]
      exact Or.inl hd
    · rw [hdirt, Function.update_of_ne hne] at hdirty
      exact C.fresh h hh hdirty
  · intro h hh hdirty
    rcases C.stuck h hh hdirty with h1 | ⟨h1, h2⟩
    · exact Or.inl h1
    · rw [hdirt]
      exact Or.inr ⟨update_true h1 bh, h2⟩

/-! ## Locks -/

theorem Sound.completes (S : Sound N s₀ s) (he : Completes False s s') : Sound N s₀ s' := by
  have C := S.toCoherent.completes he
  obtain ⟨i, r, u, bytes, -, hr, -, rfl⟩ := he
  have E := ended s i r u bytes
  refine { toCoherent := C, locked := ?_, single := ?_ }
  · intro j r' hr'
    obtain ⟨hj, hne⟩ := E.left hr'
    rw [E.lock, Function.update_of_ne fun hb => hne (S.single j i r' r hj hr hb)]
    exact S.locked j r' hj
  · intro j k r₁ r₂ h₁ h₂
    exact S.single j k r₁ r₂ (E.left h₁).1 (E.left h₂).1

theorem lasts_sound {ops : Nat → Prog Cache Tag Proc Ret → Prop} :
    Lasts (kernel False ops) (Sound N s₀) :=
  fun _ _ h he => h.completes he

theorem Held.completes (H : Held N s₀ bh s) (he : Completes False s s') : Held N s₀ bh s' := by
  have S := H.toSound.completes he
  have hkeys := sameKeys_of_eq (queues_completes he)
  obtain ⟨i, r, u, bytes, -, hr, -, rfl⟩ := he
  have E := ended s i r u bytes
  refine { toSound := S, head := H.head, driver := ?_, lock := ?_, idle := ?_ }
  · rw [hkeys.1]
    exact H.driver
  · rw [E.lock, Function.update_of_ne (H.idle i r hr).symm]
    exact H.lock
  · intro j r' hr'
    exact H.idle j r' (E.left hr').1

/-- An unlocked buffer has no request. -/
theorem Sound.idle (S : Sound N s₀ s) (hl : s.buf.lock bh = false) (i : Nat) (r : Request)
    (hr : s.request i = some r) : r.bh ≠ bh := by
  rintro rfl
  rw [S.locked i r hr] at hl
  cases hl

theorem Sound.recount (S : Sound N s₀ s) (c : Nat) : Sound N s₀ (s.setCount bh c) :=
  { S with toCoherent := S.toCoherent.recount c }

theorem Sound.lock (S : Sound N s₀ s) (hbh : bh < N) (hl : s.buf.lock bh = false)
    (hd : HasDriver s₀.requestFn (s.buf.dev bh)) : Held N s₀ bh (s.setLock bh true) where
  toCoherent := S.toCoherent.relock true
  locked i r hr := update_true (S.locked i r hr) bh
  single := S.single
  head := hbh
  driver := hd
  lock := Function.update_self ..
  idle := S.idle hl

theorem Held.unlock (H : Held N s₀ bh s) : Sound N s₀ (s.setLock bh false) where
  toCoherent := H.toCoherent.relock false
  locked i r hr := (Function.update_of_ne (H.idle i r hr) ..).trans (H.locked i r hr)
  single := H.single

theorem Held.queue (H : Held N s₀ bh s) {i : Nat} (hi : s.request i = none) (w : Bool) :
    Sound N s₀ (s.addRequest i w bh) := by
  have hreq : (s.addRequest i w bh).request =
    Function.update s.request i (some ⟨w, bh, s.buf.dev bh, s.buf.blocknr bh⟩) := rfl
  have hcases : ∀ j r, (s.addRequest i w bh).request j = some r →
      j = i ∧ r.bh = bh ∨ s.request j = some r ∧ r.bh ≠ bh := by
    intro j r hr
    rw [hreq, Function.update_apply] at hr
    split at hr
    · next hji =>
      cases hr
      exact Or.inl ⟨hji, rfl⟩
    · exact Or.inr ⟨hr, H.idle j r hr⟩
  refine { toCoherent := H.toCoherent.addRequest H.head H.driver hi w, locked := ?_, single := ?_ }
  · intro j r hr
    rcases hcases j r hr with ⟨-, hb⟩ | ⟨hj, -⟩
    · rw [hb]
      exact H.lock
    · exact H.locked j r hj
  · intro j k r r' hr hr' hb
    rcases hcases j r hr with ⟨hj, h1⟩ | ⟨hj, h1⟩ <;>
      rcases hcases k r' hr' with ⟨hk, h2⟩ | ⟨hk, h2⟩
    · rw [hj, hk]
    · exact absurd (hb.symm.trans h1) h2
    · exact absurd (hb.trans h2) h1
    · exact H.single j k r r' hj hk hb

theorem Sound.putInode (S : Sound N s₀ s) (hd : HasDriver s₀.requestFn (s.buf.dev bh))
    (i v : Nat) : Sound N s₀ (s.putInode bh i v) :=
  { S with toCoherent := S.toCoherent.putInode hd i v }

/-! ## Code that does not reassign buffers -/

section Requests

variable {n : Nat} {ops : Nat → Prog Cache Tag Proc Ret → Prop} {allow : Tag → Cache → Prop}
  {K : (Nat → UInt16) → (Nat → UInt32) → Prop}

/-- What is known of the blocks that the heads carry. -/
abbrev Keyed (N : Nat) (s₀ : Cache) (K : (Nat → UInt16) → (Nat → UInt32) → Prop) (s : Cache) :
    Prop :=
  Sound N s₀ s ∧ K s.buf.dev s.buf.blocknr

theorem lasts_keyed : Lasts (kernel False ops) (Keyed N s₀ K) := by
  intro s s' h he
  obtain ⟨hd, hb⟩ := sameKeys_of_eq (queues_completes he)
  rw [Keyed, hd, hb]
  exact ⟨h.1.completes he, h.2⟩

theorem llRwBlock_keeps (w : Bool) (hbh : bh < N) :
    Alone (kernel False ops) allow n (llRwBlock (if w then .write else .read) bh) (Keyed N s₀ K)
      fun _ => Keyed N s₀ K := by
  have hdriven : Lasts (kernel False ops) fun s => Keyed N s₀ K s ∧
      HasDriver s.requestFn (s.buf.dev bh) := by
    intro s s' h he
    rw [(completes_static he).1, (sameKeys_of_eq (queues_completes he)).1]
    exact ⟨lasts_keyed s s' h.1 he, h.2⟩
  have hheld : Lasts (kernel False ops) fun s => Held N s₀ bh s ∧ K s.buf.dev s.buf.blocknr := by
    intro s s' h he
    obtain ⟨hd, hb⟩ := sameKeys_of_eq (queues_completes he)
    rw [hd, hb]
    exact ⟨h.1.completes he, h.2⟩
  refine llRwBlock_alone _ lasts_keyed ?_ fun _ h _ => h
  refine makeRequest_alone w hdriven hheld hheld lasts_keyed ?_ (fun _ h _ => h) ?_ ?_
  · intro s h hl
    refine ⟨h.1.1.lock hbh hl ?_, h.1.2⟩
    rw [← h.1.1.table]
    exact h.2
  · exact fun s h => ⟨h.1.unlock, h.2⟩
  · exact fun s i h _ hi _ => ⟨h.1.queue hi w, h.2⟩

theorem waitOnBuffer_keeps (bh : Nat) :
    Alone (kernel False ops) allow n (waitOnBuffer bh) (Keyed N s₀ K) fun _ => Keyed N s₀ K :=
  (waitOnBuffer_alone lasts_keyed bh).conseq (fun _ h => h) fun _ _ h => h.1

theorem brelse_keeps (bh : Nat) :
    Alone (kernel False ops) allow n (brelse bh) (Keyed N s₀ K) fun _ => Keyed N s₀ K := by
  refine alone_bind (waitOnBuffer_keeps bh) fun _ => ?_
  refine alone_bind (R := fun _ => Keyed N s₀ K) (alone_read (fun _ => lasts_keyed) fun _ h => h)
    fun c => ?_
  refine alone_bind (R := fun _ => Keyed N s₀ K) (alone_modify lasts_keyed ?_) fun _ => ?_
  · exact fun s h => ⟨h.1.recount _, h.2⟩
  · exact alone_ite (fun _ => alone_panic) fun _ => alone_pure fun _ h => h

end Requests

/-! ## Procedures -/

/-- The buffer that was got, if any, is of the block. -/
def Carries (N : Nat) (dev : UInt16) (block : UInt32) (r : Ret) (d : Nat → UInt16)
    (b : Nat → UInt32) : Prop :=
  ∀ bh, r = some bh → bh < N ∧ d bh = dev ∧ b bh = block

/-- What the procedures rely on. Those that a sync does not need rely on too much. -/
def Before (N : Nat) (s₀ : Cache) : Proc → Cache → Prop
  | .getHashTable _ _, s | .getblk _ _, s | .syncPass _ _, s | .syncInodes _, s => Sound N s₀ s
  | .scan _ _ tmp bh, s => Sound N s₀ s ∧ tmp < N ∧ ∀ x, bh = some x → x < N
  | .clean _ _ bh, s => (Sound N s₀ s ∧ bh < N) ∧ s.buf.lock bh = false
  | _, _ => False

/-- What they guarantee. -/
def After (N : Nat) (s₀ : Cache) : Proc → Ret → Cache → Prop
  | .getHashTable dev block, r, s | .getblk dev block, r, s | .scan dev block _ _, r, s
  | .clean dev block _, r, s => Keyed N s₀ (Carries N dev block r) s
  | _, _, s => Sound N s₀ s

section Procedures

variable {n : Nat} {ops : Nat → Prog Cache Tag Proc Ret → Prop} {allow : Tag → Cache → Prop}
  (ih : ∀ p, Alone (kernel False ops) allow n (Code.call p) (Before N s₀ p) (After N s₀ p))

theorem findBufferM_keeps (dev : UInt16) (block : UInt32) {P : Cache → Prop}
    (hP : Lasts (kernel False ops) P) :
    Alone (kernel False ops) allow n (findBufferM dev block) P
      fun r s => P s ∧ findBuffer s.buf dev block = some r := by
  have hfound : ∀ r, Lasts (kernel False ops) fun s => P s ∧ findBuffer s.buf dev block = r := by
    intro r s s' h he
    refine ⟨hP s s' h.1 he, ?_⟩
    rw [← findBuffer_queues, queues_completes he, findBuffer_queues]
    exact h.2
  refine alone_bind (alone_read hfound fun s h => ⟨h, rfl⟩) fun r => ?_
  cases r with
  | none => exact alone_panic
  | some r => exact alone_pure fun _ h => h

include ih

theorem getHashTable_keeps (dev : UInt16) (block : UInt32) :
    Alone (kernel False ops) allow n (getHashTableBody dev block) (Sound N s₀)
      fun r => Keyed N s₀ (Carries N dev block r) := by
  refine alone_bind (findBufferM_keeps dev block lasts_sound) fun r => ?_
  cases r with
  | none => exact alone_pure fun s h => ⟨h.1, fun bh hbh => by cases hbh⟩
  | some bh =>
    refine alone_bind (R := fun _ => Keyed N s₀ (Carries N dev block (some bh)))
      (alone_modify lasts_keyed ?_) fun _ => ?_
    · intro s ⟨S, hf⟩
      obtain ⟨order, chain, Q⟩ := S.shape.queues
      obtain ⟨-, hlt, hd, hb⟩ := (findBuffer_eq_some Q).mp hf
      rw [S.shape.nr] at hlt
      refine ⟨S.recount _, fun x hx => ?_⟩
      obtain rfl := Option.some.inj hx
      exact ⟨hlt, hd, hb⟩
    · refine alone_bind (waitOnBuffer_keeps bh) fun _ => ?_
      refine alone_bind (R := fun _ => Keyed N s₀ (Carries N dev block (some bh)))
        (alone_read (fun _ => lasts_keyed) fun _ h => h) fun same => alone_ite ?_ ?_
      · exact fun _ => alone_pure fun _ h => h
      · intro _
        refine alone_bind (R := fun _ => Sound N s₀) (alone_modify lasts_sound ?_)
          fun _ => ih (.getHashTable dev block)
        exact fun s h => h.1.recount _

theorem getblk_keeps (dev : UInt16) (block : UInt32) :
    Alone (kernel False ops) allow n (getblkBody dev block) (Sound N s₀)
      fun r => Keyed N s₀ (Carries N dev block r) := by
  refine alone_bind (ih (.getHashTable dev block)) fun r => ?_
  cases r with
  | some bh => exact alone_pure fun _ h => h
  | none =>
    refine alone_bind (R := fun first s => Sound N s₀ s ∧ ∀ x, first = some x → x < N) ?_
      fun first => ?_
    · refine alone_read (fun _ => lasts_sound.and (lasts_fact _)) fun s h => ⟨h.1, fun x hx => ?_⟩
      obtain ⟨order, chain, Q⟩ := h.1.shape.queues
      rw [Q.first] at hx
      rw [← h.1.shape.nr, ← Q.mem]
      exact List.mem_of_head? hx
    · cases first with
      | none => exact alone_panic
      | some tmp =>
        exact (ih (.scan dev block tmp none)).pre fun s h =>
          ⟨h.1, h.2 tmp rfl, fun x hx => by cases hx⟩

theorem tryBuffer_keeps (dev : UInt16) (block : UInt32) {bh : Nat} (hbh : bh < N) :
    Alone (kernel False ops) allow n (tryBuffer dev block bh) (Sound N s₀)
      fun r => Keyed N s₀ (Carries N dev block r) := by
  refine alone_bind (waitOnBuffer_alone lasts_sound bh) fun _ => ?_
  refine alone_bind (R := fun _ s => Sound N s₀ s ∧ s.buf.lock bh = false)
    (alone_read (fun _ => lasts_sound.and (lasts_unlocked bh)) fun _ h => h)
    fun c => alone_ite ?_ ?_
  · exact fun _ => (ih (.getblk dev block)).pre fun _ h => h.1
  · exact fun _ => (ih (.clean dev block bh)).pre fun _ h => ⟨⟨h.1, hbh⟩, h.2⟩

theorem endScan_keeps (dev : UInt16) (block : UInt32) {bh : Option Nat}
    (hbh : ∀ x, bh = some x → x < N) :
    Alone (kernel False ops) allow n (endScan dev block bh) (Sound N s₀)
      fun r => Keyed N s₀ (Carries N dev block r) := by
  cases bh with
  | none => exact alone_bind alone_sleep fun _ => ih (.getblk dev block)
  | some bh => exact tryBuffer_keeps ih dev block (hbh bh rfl)

theorem scanNext_keeps (dev : UInt16) (block : UInt32) {tmp : Nat} (htmp : tmp < N)
    {bh : Option Nat} (hbh : ∀ x, bh = some x → x < N) :
    Alone (kernel False ops) allow n (scanNext dev block tmp bh) (Sound N s₀)
      fun r => Keyed N s₀ (Carries N dev block r) := by
  refine alone_bind (R := fun p s => Sound N s₀ s ∧ ∀ x, p.1 = some x → x < N) ?_ ?_
  · refine alone_read (fun _ => lasts_sound.and (lasts_fact _)) fun s h => ⟨h, fun x hx => ?_⟩
    obtain ⟨order, chain, Q⟩ := h.shape.queues
    have hmem : tmp ∈ order := (Q.mem tmp).mpr (by rw [h.shape.nr]; exact htmp)
    rw [← h.shape.nr, ← Q.mem]
    exact Q.ring.next_mem hmem hx
  · rintro ⟨succ, first⟩
    cases succ with
    | none => exact alone_panic
    | some t =>
      refine alone_ite ?_ ?_
      · exact fun _ => (endScan_keeps ih dev block hbh).pre fun _ h => h.1
      · exact fun _ => (ih (.scan dev block t bh)).pre fun _ h => ⟨h.1, h.2 t rfl, hbh⟩

theorem scan_keeps (dev : UInt16) (block : UInt32) {tmp : Nat} (htmp : tmp < N)
    {bh : Option Nat} (hbh : ∀ x, bh = some x → x < N) :
    Alone (kernel False ops) allow n (scanBody dev block tmp bh) (Sound N s₀)
      fun r => Keyed N s₀ (Carries N dev block r) := by
  have hsome : ∀ x, some tmp = some x → x < N := fun x hx => Option.some.inj hx ▸ htmp
  have hread : ∀ {α : Type} (f : Cache → α), Alone (kernel False ops) allow n (Code.read f)
      (Sound N s₀) fun _ => Sound N s₀ := fun f => alone_read (fun _ => lasts_sound) fun _ h => h
  refine alone_bind (hread _) fun c => alone_ite ?_ ?_
  · exact fun _ => scanNext_keeps ih dev block htmp hbh
  · intro _
    refine alone_bind (hread _) fun better =>
      alone_ite ?_ fun _ => scanNext_keeps ih dev block htmp hbh
    intro _
    refine alone_bind (hread _) fun bad => alone_ite ?_ ?_
    · exact fun _ => endScan_keeps ih dev block hsome
    · exact fun _ => scanNext_keeps ih dev block htmp hsome

theorem syncDev_keeps (dev : UInt16) :
    Alone (kernel False ops) allow n (syncDev dev) (Sound N s₀) fun _ => Sound N s₀ := by
  refine alone_bind (ih (.syncPass (some dev) 0)) fun _ => ?_
  refine alone_bind (ih (.syncInodes 0)) fun _ => ?_
  exact alone_bind (ih (.syncPass (some dev) 0)) fun _ => alone_pure fun _ h => h

/-- The end of `getblk`: the head is clean, and nothing sleeps before it is taken over. -/
theorem clean_keeps (dev : UInt16) (block : UInt32) {bh : Nat} (hbh : bh < N) :
    Alone (kernel False ops) allow n (cleanBody dev block bh)
      (fun s => Sound N s₀ s ∧ s.buf.lock bh = false)
      fun r => Keyed N s₀ (Carries N dev block r) := by
  have hpre : Lasts (kernel False ops) fun s => Sound N s₀ s ∧ s.buf.lock bh = false :=
    lasts_sound.and (lasts_unlocked bh)
  refine alone_bind (R := fun dirt s => (Sound N s₀ s ∧ s.buf.lock bh = false) ∧
    (dirt = false → s.buf.dirt bh = false)) ?_ fun dirt => alone_ite ?_ ?_
  · refine alone_read (fun dirt => ?_) fun s h => ⟨h, id⟩
    exact fun s s' h he => ⟨hpre s s' h.1 he, fun hd => completes_clean (h.2 hd) he⟩
  · intro _
    refine alone_bind (R := fun _ => Sound N s₀)
      (alone_read (fun _ => lasts_sound) fun _ h => h.1.1) fun d => ?_
    exact alone_bind (syncDev_keeps ih d) fun _ => tryBuffer_keeps ih dev block hbh
  · intro hd
    have hclean : Lasts (kernel False ops) fun s => (Sound N s₀ s ∧ s.buf.lock bh = false) ∧
        s.buf.dirt bh = false := hpre.and (lasts_clean bh)
    refine alone_bind ((findBufferM_keeps dev block hclean).pre fun s h =>
      ⟨h.1, h.2 (by simpa using hd)⟩) fun r => ?_
    cases r with
    | some _ => exact (ih (.getblk dev block)).pre fun _ h => h.1.1.1
    | none =>
      have habsent : Lasts (kernel False ops) fun s => ((Sound N s₀ s ∧ s.buf.lock bh = false) ∧
          s.buf.dirt bh = false) ∧ findBuffer s.buf dev block = some none := by
        intro s s' h he
        refine ⟨hclean s s' h.1 he, ?_⟩
        rw [← findBuffer_queues, queues_completes he, findBuffer_queues]
        exact h.2
      refine alone_bind (alone_read (fun _ => habsent) fun _ h => h) fun ok => alone_ite ?_
        fun _ => alone_panic
      intro _
      refine alone_bind (R := fun _ => Keyed N s₀ (Carries N dev block (some bh)))
        (alone_atom lasts_keyed ?_) fun _ => alone_pure fun _ h => h
      intro s ⟨⟨⟨S, hl⟩, hdirt⟩, hf⟩ _
      obtain ⟨order, chain, Q⟩ := S.shape.queues
      have hlt : bh < s.buf.nrBuffers := by rw [S.shape.nr]; exact hbh
      obtain ⟨b, hb, T, Q'⟩ := takeover_queues Q hlt fun hdev =>
        ((findBuffer_eq_none Q).mp hf).resolve_left hdev
      have hs' : s.takeover bh dev block = { s with buf := b } := by
        rw [Cache.takeover, hb]
        rfl
      rw [hs']
      have C := S.toCoherent.takeover ⟨T.nrBuffers.trans S.shape.nr, _, _, Q'⟩ T (S.idle hl) hdirt
      refine ⟨{ toCoherent := C, locked := ?_, single := S.single }, fun x hx => ?_⟩
      · intro i r hr
        dsimp only
        rw [T.lock]
        exact S.locked i r hr
      · obtain rfl := Option.some.inj hx
        dsimp only
        rw [T.dev, T.blocknr, Function.update_self, Function.update_self]
        exact ⟨hbh, rfl, rfl⟩

/-- **`bread`** gives a buffer of its block. -/
theorem bread_keeps (dev : UInt16) (block : UInt32) :
    Alone (kernel False ops) allow n (bread dev block) (Sound N s₀)
      fun r => Keyed N s₀ (Carries N dev block r) := by
  refine alone_bind (ih (.getblk dev block)) fun r => ?_
  cases r with
  | none => exact alone_panic
  | some bh =>
    refine alone_fact (p := bh < N) ?_ fun s h => (h.2 bh rfl).1
    intro hbh
    have hread : ∀ f : Cache → Bool, Alone (kernel False ops) allow n (Code.read f)
        (Keyed N s₀ (Carries N dev block (some bh)))
        fun _ => Keyed N s₀ (Carries N dev block (some bh)) :=
      fun f => alone_read (fun _ => lasts_keyed) fun _ h => h
    refine alone_bind (hread _) fun u => alone_ite (fun _ => alone_pure fun _ h => h) fun _ => ?_
    refine alone_bind (llRwBlock_keeps false hbh) fun _ => ?_
    refine alone_bind (waitOnBuffer_keeps bh) fun _ => ?_
    refine alone_bind (hread _) fun u => alone_ite (fun _ => alone_pure fun _ h => h) fun _ => ?_
    refine alone_bind (brelse_keeps bh) fun _ => alone_pure fun s h => ⟨h.1, fun x hx => ?_⟩
    cases hx

theorem writeInode_keeps {dev : UInt16} (hd : HasDriver s₀.requestFn dev) (block : UInt32)
    (i v : Nat) :
    Alone (kernel False ops) allow n (writeInode dev block i v) (Sound N s₀)
      fun _ => Sound N s₀ := by
  refine alone_bind (bread_keeps ih dev block) fun r => ?_
  cases r with
  | none => exact alone_panic
  | some bh =>
    refine alone_bind (R := fun _ => Keyed N s₀ (Carries N dev block (some bh)))
      (alone_modify lasts_keyed ?_)
      fun _ => (brelse_keeps bh).conseq (fun _ h => h) fun _ _ h => h.1
    intro s h
    obtain ⟨-, hdev, -⟩ := h.2 bh rfl
    refine ⟨h.1.putInode ?_ i v, h.2⟩
    rw [hdev]
    exact hd

theorem syncPass_keeps (dev : Option UInt16) (i : Nat) :
    Alone (kernel False ops) allow n (syncPassBody dev i) (Sound N s₀) fun _ => Sound N s₀ := by
  refine alone_bind (R := fun p s => Sound N s₀ s ∧ (p.2 = true → i < N)) ?_ ?_
  · refine alone_read (fun _ => lasts_sound.and (lasts_fact _)) fun s h => ⟨h, fun hi => ?_⟩
    rw [← h.shape.nr]
    simpa using hi
  · rintro ⟨here, more⟩
    have hnext : Alone (kernel False ops) allow n (Code.call (.syncPass dev (i + 1))) (Sound N s₀)
        fun _ => Sound N s₀ := ih (.syncPass dev (i + 1))
    refine alone_ite (fun _ => alone_pure fun _ h => h.1) fun hmore => alone_ite ?_ ?_
    · exact fun _ => hnext.pre fun _ h => h.1
    · intro _
      refine alone_fact (p := i < N) ?_ fun _ h => h.2 (by simpa using hmore)
      intro hi
      have hkeep : ∀ s, Sound N s₀ s → Keyed N s₀ (fun _ _ => True) s := fun s h => ⟨h, trivial⟩
      refine alone_bind (R := fun _ => Sound N s₀) ((waitOnBuffer_keeps i).conseq
        (fun s h => hkeep s h.1) fun _ _ h => h.1) fun _ => ?_
      refine alone_bind (R := fun _ => Sound N s₀) (alone_read (fun _ => lasts_sound) fun _ h => h)
        fun dirt => alone_bind (alone_when ?_ fun _ h _ => h) fun _ => hnext
      exact fun _ => (llRwBlock_keeps true hi).conseq hkeep fun _ _ h => h.1

theorem syncInodes_keeps (i : Nat) :
    Alone (kernel False ops) allow n (syncInodesBody i) (Sound N s₀) fun _ => Sound N s₀ := by
  have hcall : ∀ i, Alone (kernel False ops) allow n (Code.call (.syncInodes i)) (Sound N s₀)
      fun _ => Sound N s₀ := fun i => ih (.syncInodes i)
  have hask : Alone (kernel False ops) allow n Code.ask (Sound N s₀) fun _ => Sound N s₀ :=
    alone_ask fun _ _ h => h
  refine alone_ite ?_ fun _ => alone_pure fun _ h => h
  intro _
  refine alone_bind hask fun locked => alone_ite ?_ ?_
  · exact fun _ => alone_bind alone_sleep fun _ => hcall i
  · intro _
    refine alone_bind hask fun dirt => alone_ite (fun _ => hcall (i + 1)) fun _ => ?_
    refine alone_bind hask fun dev => alone_bind hask fun block => alone_bind hask fun record =>
      alone_bind hask fun v => ?_
    refine alone_bind (R := fun core s => Sound N s₀ s ∧
      (core = true → HasDriver s₀.requestFn (UInt16.ofNat dev))) ?_ fun core => ?_
    · refine alone_read (fun _ => lasts_sound.and (lasts_fact _)) fun s h => ⟨h, fun hc => ?_⟩
      rw [h.mounted] at hc
      exact h.core _ hc
    · refine alone_bind (R := fun _ => Sound N s₀) (alone_when ?_ fun _ h _ => h.1)
        fun _ => hcall (i + 1)
      intro hc
      refine alone_fact (p := HasDriver s₀.requestFn (UInt16.ofNat dev)) ?_ fun _ h => h.2 hc
      exact fun hd => (writeInode_keeps ih hd _ record v).pre fun _ h => h.1

omit ih in
/-- **Every procedure that a sync needs** keeps what is known. -/
theorem keeps_call : ∀ n p, Alone (kernel False ops) allow n (Code.call p) (Before N s₀ p)
    (After N s₀ p) := by
  refine alone_calls ?_
  intro n ih p
  cases p with
  | getHashTable dev block => exact getHashTable_keeps ih dev block
  | getblk dev block => exact getblk_keeps ih dev block
  | scan dev block tmp bh =>
    refine alone_fact (p := tmp < N ∧ ∀ x, bh = some x → x < N) ?_ fun _ h => h.2
    exact fun h => (scan_keeps ih dev block h.1 h.2).pre fun _ h => h.1
  | clean dev block bh =>
    refine alone_fact (p := bh < N) ?_ fun _ h => h.1.2
    exact fun h => (clean_keeps ih dev block h).pre fun _ h => ⟨h.1.1, h.2⟩
  | syncPass dev i => exact syncPass_keeps ih dev i
  | syncInodes i => exact syncInodes_keeps ih i
  | _ => exact alone_false fun _ h => h

end Procedures

end Linux011.Fs.Sync
