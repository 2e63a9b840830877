import Linux011.Fs.CacheAlone
import Linux011.Fs.SyncPass

/-!
# Block buffers — `breada`

`breada` is `bread` of its first block; the others are to be marked for reading as
well. The loop over them gets a buffer `tmp` for each, but asks for a read of `bh`, the
buffer of the first. So nothing is read ahead.

* `ahead` — what a task alone keeps while it is in `breada`;
* `breada_missing`, `breada_cached` — it does not return before the first block is read;
* `breada_reads_first` — what is read, and what becomes of the references;
* `breada_reads_nothing_ahead` — a block that is not read.
-/

namespace Linux011.Fs

open Linux011.Lib
open Linux011.Lib.Kernel

/-! ## What is asked for -/

/-- The blocks listed after the first, up to a negative number. -/
def listed (args : List UInt32) : List UInt32 := args.takeWhile fun b => b.toNat < 2 ^ 31

/-- The block has still to be read: no buffer has it up to date, or has a request
pending. -/
def Wanted (s : Cache) (dev : UInt16) (block : UInt32) : Prop :=
  ∀ x, findBuffer s.buf dev block = some (some x) →
    s.buf.uptodate x = false ∧ ∀ i r, s.request i = some r → r.bh ≠ x

/-- A read of the block has been started. -/
def Started (l : List (Tag × Cache)) (dev : UInt16) (block : UInt32) : Prop :=
  ∃ x s, (.request false x, s) ∈ l ∧ s.buf.dev x = dev ∧ s.buf.blocknr x = block

/-- No block but the first has still to be read, and that one can be. -/
def FirstOnly (s : Cache) (dev : UInt16) (first : UInt32) (args : List UInt32) : Prop :=
  ∀ b, b ∈ first :: listed args → Wanted s dev b → b = first ∧ HasDriver s.requestFn dev

/-- What the caller has: the buffer of the first block with one reference, or nothing. -/
structure GivesFirst (N : Nat) (s s' : Cache) (dev : UInt16) (first : UInt32) (r : Ret) :
    Prop where
  ready : ∀ bh, r = some bh → bh < N ∧ s'.buf.dev bh = dev ∧ s'.buf.blocknr bh = first ∧
    s'.buf.uptodate bh = true
  count : ∀ h, h < N → s'.buf.count h = s.buf.count h + if r = some h then 1 else 0

/-! ## The invariant -/

/-- No buffer of the block has its bytes, or is going to get them. -/
def NotRead (N : Nat) (dev : UInt16) (block : UInt32) (s : Cache) : Prop :=
  ∀ h, h < N → s.buf.dev h = dev → s.buf.blocknr h = block →
    s.buf.uptodate h = false ∧ s.buf.dirt h = false ∧ ∀ i r, s.request i = some r → r.bh ≠ h

/-- The first block is read, and the blocks of inodes in core. -/
def MayRead (m : UInt16 → Bool) (dev : UInt16) (first : UInt32) (d : UInt16) (b : UInt32) : Prop :=
  (d = dev ∧ b = first) ∨ m d = true

/-- What holds in `breada`, run alone; `idle` if the first block is not to be read. -/
structure AheadInv (base : Nat → Nat) (N : Nat) (fn : Nat → Bool) (m : UInt16 → Bool)
    (dev : UInt16) (first : UInt32) (idle : Prop) (G : Nat → Hold) (s : Cache) : Prop where
  users   : Users base N G s
  locks   : Locks N G s
  table   : s.requestFn = fn
  mounted : s.mounted = m
  reading : ∀ t h, (G t).lock = some (h, some false) →
    MayRead m dev first (s.buf.dev h) (s.buf.blocknr h) ∧ HasDriver fn (s.buf.dev h)
  notRead : idle → NotRead N dev first s

variable {base : Nat → Nat} {N : Nat} {fn : Nat → Bool} {m : UInt16 → Bool} {dev : UInt16}
  {first : UInt32} {idle : Prop} {G : Nat → Hold} {s s' : Cache} {t : Nat} {L : List Ref}

theorem NotRead.congr (U : NotRead N dev first s) (hk : SameKeys s s')
    (h : ∀ h, h < N → s.buf.dev h = dev → s.buf.blocknr h = first →
      s'.buf.uptodate h = s.buf.uptodate h ∧ s'.buf.dirt h = s.buf.dirt h)
    (hr : ∀ i r, s'.request i = some r → s.request i = some r ∨
      ¬ (s.buf.dev r.bh = dev ∧ s.buf.blocknr r.bh = first)) : NotRead N dev first s' := by
  intro x hx hd hb
  rw [hk.1] at hd
  rw [hk.2] at hb
  obtain ⟨hu, hdirt, hpending⟩ := U x hx hd hb
  obtain ⟨hu', hdirt'⟩ := h x hx hd hb
  refine ⟨hu'.trans hu, hdirt'.trans hdirt, fun i r hir => ?_⟩
  rcases hr i r hir with hold | hother
  · exact hpending i r hold
  · rintro rfl
    exact hother ⟨hd, hb⟩

/-- What a task that has locked a buffer to read it knows, when its own ghost changes. -/
theorem AheadInv.reading_update {g : Hold} (I : AheadInv base N fn m dev first idle G s)
    (hk : SameKeys s s')
    (hg : ∀ h, g.lock = some (h, some false) →
      MayRead m dev first (s.buf.dev h) (s.buf.blocknr h) ∧ HasDriver fn (s.buf.dev h))
    (t' h : Nat) (hl : (Function.update G t g t').lock = some (h, some false)) :
    MayRead m dev first (s'.buf.dev h) (s'.buf.blocknr h) ∧ HasDriver fn (s'.buf.dev h) := by
  rw [hk.1, hk.2]
  rw [lock_update] at hl
  split at hl
  · exact hg h hl
  · exact I.reading t' h hl

/-- A request that ends is for another block, while the first is not to be read. -/
theorem NotRead.endRequest (U : NotRead N dev first s) {i : Nat} {r : Request}
    (hr : s.request i = some r) (u : Bool) (bytes : Nat → UInt8) :
    NotRead N dev first (s.endRequest i r u bytes) := by
  have E := ended s i r u bytes
  refine U.congr (sameKeys_of_eq (queues_endRequest s i r u bytes)) ?_ ?_
  · intro h hh hdev hb
    have hne : h ≠ r.bh := fun he => (U h hh hdev hb).2.2 i r hr he.symm
    rw [E.dirt, E.uptodate, Function.update_of_ne hne]
    exact ⟨rfl, rfl⟩
  · intro j r' hr'
    exact Or.inl (E.left hr').1

/-- A head taken over has no bytes yet. -/
theorem NotRead.takeover (U : NotRead N dev first s) (K : Locks N G s) {bh : Nat}
    (hl : s.buf.lock bh = false) {d : UInt16} {b : UInt32} {b' : Buffers}
    (T : TakenOver s.buf bh d b b') : NotRead N dev first { s with buf := b' } := by
  intro h hh hdev hblock
  show b'.uptodate h = false ∧ b'.dirt h = false ∧ _
  rw [T.uptodate, T.dirt]
  by_cases hb : h = bh
  · subst hb
    rw [Function.update_self, Function.update_self]
    exact ⟨rfl, rfl, fun i r hr => K.unlocked hl hr⟩
  · have hdev : b'.dev h = dev := hdev
    have hblock : b'.blocknr h = first := hblock
    rw [T.dev, Function.update_of_ne hb] at hdev
    rw [T.blocknr, Function.update_of_ne hb] at hblock
    rw [Function.update_of_ne hb, Function.update_of_ne hb]
    exact U h hh hdev hblock

/-! ## The payload -/

/-- What a task alone keeps while it is in `breada`. -/
def ahead (base : Nat → Nat) (N : Nat) (fn : Nat → Bool) (m : UInt16 → Bool) (dev : UInt16)
    (first : UInt32) (idle : Prop) : Payload N True where
  inv := AheadInv base N fn m dev first idle
  allow tag s := match tag with
    | .request false bh => idle → ¬ (s.buf.dev bh = dev ∧ s.buf.blocknr bh = first)
    | _ => True
  ready bh s := s.buf.uptodate bh = true ∧ s.buf.lock bh = false
  queued w bh s := w = false →
    MayRead m dev first (s.buf.dev bh) (s.buf.blocknr bh) ∧ HasDriver fn (s.buf.dev bh)
  copied _ _ _ _ _ _ _ := True
  rest _ := False
  invalidates := False
  overwrites := False
  core d := m d = true
  reads := MayRead m dev first
  driver d := HasDriver fn d
  inv_core I hm := by rwa [I.mounted] at hm
  core_reads h := Or.inr h
  inv_driver I hg hr hd := by
    rw [← (I.users.key hg hr).2.1, ← I.table]
    exact hd
  env := by
    rintro G s s' - I he
    have hkeys := sameKeys_of_eq (queues_completes he)
    have hcount := (completes_count he).1
    obtain ⟨hfn, hm⟩ := completes_static he
    obtain ⟨i, r, u, bytes, -, hr, -, rfl⟩ := he
    refine ⟨I.users.congr hcount hkeys, I.locks.endRequest hr u bytes, hfn.trans I.table,
      hm.trans I.mounted, ?_, fun hidle => (I.notRead hidle).endRequest hr u bytes⟩
    intro t h hl
    rw [hkeys.1, hkeys.2]
    exact I.reading t h hl
  ready_env {G s s' bh} I h he := by
    refine ⟨?_, completes_lock he h.2⟩
    obtain ⟨i, r, u, bytes, -, hr, -, rfl⟩ := he
    rw [(ended s i r u bytes).uptodate, Function.update_of_ne (I.locks.unlocked h.2 hr).symm]
    exact h.1
  ready_intro _ hl hu := ⟨hu, hl⟩
  acquire _ I hg hL hr hd hb :=
    ⟨I.users.acquire hg hL hr hd hb, I.locks.refs hg rfl fun _ h => ⟨h, id, id, rfl, rfl⟩, I.table,
      I.mounted, I.reading_update ⟨rfl, rfl⟩ fun _ h => (by cases h), I.notRead⟩
  release I hg :=
    ⟨I.users.release hg, I.locks.refs hg rfl fun _ h => ⟨h, id, id, rfl, rfl⟩, I.table,
      I.mounted, I.reading_update ⟨rfl, rfl⟩ fun _ h => (by cases h), I.notRead⟩
  lock I hg hbh hl :=
    ⟨I.users.relock hg rfl ⟨rfl, rfl⟩, I.locks.lock hbh hl, I.table, I.mounted,
      I.reading_update ⟨rfl, rfl⟩ fun _ h => (by cases h), I.notRead⟩
  useful I hg hw hread := by
    refine ⟨I.users.relock hg rfl ⟨rfl, rfl⟩, I.locks.use hg hw, I.table, I.mounted,
      I.reading_update ⟨rfl, rfl⟩ ?_, I.notRead⟩
    intro h hl
    cases hl
    obtain ⟨r, hr, rfl, hreads, hdriver⟩ := hread rfl
    obtain ⟨-, hdev, hblock⟩ := I.users.key hg hr
    rw [hdev, hblock]
    exact ⟨hreads, hdriver⟩
  unlock I hg :=
    ⟨I.users.relock hg rfl ⟨rfl, rfl⟩, I.locks.unlock hg, I.table, I.mounted,
      I.reading_update ⟨rfl, rfl⟩ fun _ h => (by cases h), I.notRead⟩
  promise {G s t L bh w} I hg _ hw := by
    subst hw
    exact I.reading t bh (by rw [hg])
  request {G s t L bh w i} I hg _ hi ha := by
    have hown : (G t).lock = some (bh, some w) := by rw [hg]
    refine ⟨I.users.relock hg rfl ⟨rfl, rfl⟩, I.locks.queue hg, I.table, I.mounted,
      I.reading_update ⟨rfl, rfl⟩ fun _ h => (by cases h), fun hidle => ?_⟩
    -- what is written was dirty, and what is read is another block
    have hother : ¬ (s.buf.dev bh = dev ∧ s.buf.blocknr bh = first) := by
      cases w with
      | false => exact ha hidle
      | true =>
        rintro ⟨hd, hb⟩
        have hdirt := I.locks.useful t bh hown
        rw [(I.notRead hidle bh (I.locks.owner t bh _ hown).1 hd hb).2.1] at hdirt
        cases hdirt
    refine (I.notRead hidle).congr ⟨rfl, rfl⟩ ?_ ?_
    · intro h _ hd hb
      have hne : h ≠ bh := by
        rintro rfl
        exact hother ⟨hd, hb⟩
      exact ⟨rfl, Function.update_of_ne hne ..⟩
    · intro j r hr
      have hr : Function.update s.request i (some ⟨w, bh, s.buf.dev bh, s.buf.blocknr bh⟩) j =
        some r := hr
      rw [Function.update_apply] at hr
      split at hr
      · cases hr
        exact Or.inr hother
      · exact Or.inl hr
  takeover {G s t L bh d block b} _ I hg hL hbh h0 hl _ _ T _ := by
    refine ⟨I.users.takeover hg hL hbh h0 T, I.locks.takeover hg hl T, I.table, I.mounted, ?_,
      fun hidle => (I.notRead hidle).takeover I.locks hl T⟩
    intro t' h hlock
    rw [lock_update] at hlock
    split at hlock
    · cases hlock
    · have hne : h ≠ bh := by
        rintro rfl
        rw [(I.locks.owner t' h _ hlock).2] at hl
        cases hl
      dsimp only
      rw [T.dev, T.blocknr, Function.update_of_ne hne, Function.update_of_ne hne]
      exact I.reading t' h hlock
  copyIn h := h.elim
  copyOut _ _ _ _ _ _ _ := trivial
  putInode {G s t L bh d block i v} I _ hbh _ hready := by
    refine ⟨I.users.congr rfl ⟨rfl, rfl⟩, I.locks.keep (fun _ => rfl) rfl ?_, I.table, I.mounted,
      I.reading, fun hidle => (I.notRead hidle).congr ⟨rfl, rfl⟩ ?_ fun _ _ h => Or.inl h⟩
    · exact fun h hlock => ⟨hlock, fun hd => update_true hd _, id, rfl, rfl⟩
    · intro h hh hd hb
      have hne : h ≠ bh := by
        rintro rfl
        have hu := hready.1
        rw [(I.notRead hidle h hh hd hb).1] at hu
        cases hu
      exact ⟨rfl, Function.update_of_ne hne ..⟩
  invalidate h _ := h.elim

/-! ## The first block -/

section Missing

variable {n : Nat} {ops : Nat → Prog Cache Tag Proc Ret → Prop}

/-- The first block cannot be queued for reading while it is not to be read. -/
theorem queueRead_never (hidle : idle) {bh : Nat} :
    ∀ n (_ : Unit), Holds (contract (ahead base N fn m dev first idle) ops) n
      (Code.call (.queueRequest false false bh))
      (fun g _ => g = locking bh (some false) [⟨bh, dev, first⟩]) (fun _ _ _ => False) := by
  refine holds_some (fun _ => stable_ghost _) ?_
  intro n ih _
  refine holds_bind (R := fun _ g _ => g = locking bh (some false) [⟨bh, dev, first⟩])
    (holds_read (stable_ghost _) fun _ _ _ _ h => h) fun slot => ?_
  cases slot with
  | some i =>
    refine holds_bind (R := fun _ _ _ => False) ?_ fun _ => holds_pure fun _ _ _ _ h => h
    refine holds_atom (stable_ghost _) ?_
    intro G t s hi hg ha
    obtain ⟨-, hd, hb⟩ := hi.2.users.key hg (List.mem_cons_self ..)
    exact (ha hidle ⟨hd, hb⟩).elim
  | none =>
    refine holds_ite (fun h => absurd h (by decide)) fun _ => ?_
    exact holds_bind (holds_sleep _) fun _ => ih ()

/-- The buffer got for the first block is not up to date, so its read is queued. -/
theorem readFirst_never (hidle : idle) {bh : Nat} (hbh : bh < N) (hdriver : HasDriver fn dev) :
    Holds (contract (ahead base N fn m dev first idle) ops) n (llRwBlock .read bh)
      (fun g _ => g = holding [⟨bh, dev, first⟩]) (fun _ _ _ => False) := by
  have hmem : (⟨bh, dev, first⟩ : Ref) ∈ [(⟨bh, dev, first⟩ : Ref)] := List.mem_cons_self ..
  refine holds_bind (R := fun driver g _ => g = holding [⟨bh, dev, first⟩] ∧ driver = true) ?_ ?_
  · refine holds_read (stable_ghost _) ?_
    intro G t s hi hg
    refine ⟨hg, ?_⟩
    rw [(hi.2.users.key hg hmem).2.1, hi.2.table]
    simpa [HasDriver] using hdriver
  · intro driver
    refine holds_when ?_ ?_
    · intro _
      refine holds_bind (R := fun _ g _ => g = holding [⟨bh, dev, first⟩])
        (holds_read (stable_ghost _) fun _ _ _ _ h => h.1) fun locked => ?_
      refine holds_ite (fun h => absurd h.1 (by decide)) fun _ => ?_
      refine holds_bind (lockBuffer_spec (call_spec n) hbh _) fun _ => ?_
      refine holds_bind (R := fun useless g _ => g = locking bh (some false) [⟨bh, dev, first⟩] ∧
        useless = false) ?_ fun useless => holds_ite ?_ ?_
      · refine holds_act (stable_ghost _) ?_
        intro G t s hi _ hg _
        obtain ⟨-, hd, hb⟩ := hi.2.users.key hg hmem
        have hu : s.buf.uptodate bh = false := (hi.2.notRead hidle bh hbh hd hb).1
        refine ⟨⟨rfl, rfl⟩, locking bh (some false) [⟨bh, dev, first⟩], ⟨hi.1, ?_⟩, rfl, ?_⟩
        · exact (ahead base N fn m dev first idle).useful hi.2 hg hu fun _ =>
            ⟨_, hmem, rfl, Or.inl ⟨rfl, rfl⟩, hdriver⟩
        · simp [hu]
      · intro hu
        refine holds_fact (p := useless = false) (fun h => ?_) fun _ _ h => h.2
        rw [h] at hu
        cases hu
      · intro _
        exact holds_bind ((queueRead_never hidle n ()).pre fun _ _ h => h.1) fun _ =>
          holds_pure fun _ _ _ _ h => h
    · intro _ _ _ _ h hd
      rw [h.2] at hd
      cases hd

/-- While the first block is not to be read, `breada` does not return. -/
theorem breada_missing (hidle : idle) (hdriver : HasDriver fn dev) (args : List UInt32) :
    Holds (contract (ahead base N fn m dev first idle) ops) n (breada dev first args)
      (fun g _ => g = holding []) (fun _ _ _ => False) := by
  refine holds_bind (getblk_spec (call_spec n) dev first (Nat.zero_le 1)) fun r => ?_
  cases r with
  | none => exact holds_panic
  | some bh =>
    have hgot : ∀ g s, (∃ h, some bh = some h ∧ Got N dev first [] h g s) →
        g = holding [⟨bh, dev, first⟩] ∧ bh < N := by
      rintro g s ⟨h, hr, hg⟩
      cases hr
      exact ⟨hg.1, hg.2.1⟩
    refine holds_fact (p := bh < N) ?_ fun g s h => (hgot g s h).2
    intro hbh
    refine holds_bind (R := fun u g _ => g = holding [⟨bh, dev, first⟩] ∧ u = false)
      ((holds_read (P := fun g _ => g = holding [⟨bh, dev, first⟩]) (stable_ghost _) ?_).pre
        fun g s h => (hgot g s h).1) fun u => ?_
    · intro G t s hi hg
      obtain ⟨-, hd, hb⟩ := hi.2.users.key hg (List.mem_cons_self ..)
      exact ⟨hg, (hi.2.notRead hidle bh hbh hd hb).1⟩
    · refine holds_bind (R := fun _ _ _ => False) (holds_when ?_ ?_)
        fun _ => holds_fact (fun h => h.elim) fun _ _ h => h
      · exact fun _ => (readFirst_never hidle hbh hdriver).pre fun _ _ h => h.1
      · intro _ _ _ _ h hu
        rw [h.2] at hu
        cases hu

end Missing

/-! ## The first block in its buffer -/

/-- The buffer `x` of the first block is not up to date, and has no request. -/
structure Cached (fn : Nat → Bool) (dev : UInt16) (first : UInt32) (x : Nat) (s : Cache) :
    Prop where
  table   : s.requestFn = fn
  found   : findBuffer s.buf dev first = some (some x)
  key     : s.buf.dev x = dev ∧ s.buf.blocknr x = first
  stale   : s.buf.uptodate x = false
  pending : ∀ i r, s.request i = some r → r.bh ≠ x

section Hit

variable {n x : Nat} {ops : Nat → Prog Cache Tag Proc Ret → Prop} {allow : Tag → Cache → Prop}

/-- What the queues do not depend on changes. -/
theorem Cached.congr (C : Cached fn dev first x s) (hq : s'.buf.queues = s.buf.queues)
    (hfn : s'.requestFn = s.requestFn) (hu : s'.buf.uptodate x = s.buf.uptodate x)
    (hr : ∀ i r, s'.request i = some r → s.request i = some r ∨ r.bh ≠ x) :
    Cached fn dev first x s' := by
  obtain ⟨hd, hb⟩ := sameKeys_of_eq hq
  refine ⟨hfn.trans C.table, ?_, ?_, hu.trans C.stale, ?_⟩
  · rw [← findBuffer_queues, hq, findBuffer_queues]
    exact C.found
  · rw [hd, hb]
    exact C.key
  · intro i r hir
    rcases hr i r hir with h | h
    · exact C.pending i r h
    · exact h

theorem lasts_cached : Lasts (kernel True ops) (Cached fn dev first x) := by
  intro s s' C he
  have hq := queues_completes he
  have hfn := (completes_static he).1
  obtain ⟨i, r, u, bytes, -, hr, -, rfl⟩ := he
  have E := ended s i r u bytes
  refine C.congr hq hfn ?_ ?_
  · rw [E.uptodate, Function.update_of_ne (C.pending i r hr).symm]
  · intro j r' hr'
    exact Or.inl (E.left hr').1

/-- A read of the buffer is queued before `ll_rw_block` returns. -/
theorem readCached_never (hdriver : HasDriver fn dev)
    (hallow : ∀ s, Cached fn dev first x s → ¬ allow (.request false x) s) :
    Alone (kernel True ops) allow n (llRwBlock .read x) (Cached fn dev first x)
      fun _ _ => False := by
  have hlasts : Lasts (kernel True ops) (Cached fn dev first x) := lasts_cached
  have hfalse : Lasts (kernel True ops) fun _ => False := lasts_fact _
  refine llRwBlock_alone .read hlasts ?_ fun s C hd => hd ?_
  · refine (makeRequest_alone false hlasts hlasts hfalse hfalse ?_ ?_ (fun _ h => h) ?_).pre
      fun _ h => h.1
    · exact fun s C _ => C.congr rfl rfl rfl fun _ _ h => Or.inl h
    · intro s C hu
      simp [Cache.useless, C.stale] at hu
    · exact fun s i C _ _ ha => hallow s C ha
  · rw [C.key.1, C.table]
    exact hdriver

/-- `getblk` finds the buffer. -/
theorem getblk_cached :
    Alone (kernel True ops) allow n (getblk dev first) (Cached fn dev first x)
      fun r s => Cached fn dev first x s ∧ r = some x := by
  have hlasts : Lasts (kernel True ops) (Cached fn dev first x) := lasts_cached
  have hkeep : ∀ c s, Cached fn dev first x s → Cached fn dev first x (s.setCount x c) :=
    fun c s C => C.congr rfl rfl rfl fun _ _ h => Or.inl h
  have hresult : ∀ r : Ret, Lasts (kernel True ops) fun s => Cached fn dev first x s ∧ r = some x :=
    fun r => hlasts.and (lasts_fact _)
  have htable : Alone (kernel True ops) allow n (Code.call (.getHashTable dev first))
      (Cached fn dev first x) fun r s => Cached fn dev first x s ∧ r = some x := by
    refine alone_body ?_
    refine alone_bind (R := fun r s => Cached fn dev first x s ∧ r = some x) ?_ fun r => ?_
    · refine alone_bind (R := fun f s => Cached fn dev first x s ∧ f = some (some x))
        (alone_read (fun _ => hlasts.and (lasts_fact _)) fun s C => ⟨C, C.found⟩) fun f => ?_
      cases f with
      | none => exact alone_panic
      | some f => exact alone_pure fun s h => ⟨h.1, Option.some.inj h.2⟩
    · refine alone_fact (p := r = some x) ?_ fun _ h => h.2
      rintro rfl
      refine alone_bind (R := fun _ => Cached fn dev first x)
        (alone_modify hlasts fun s h => hkeep _ s h.1) fun _ => ?_
      refine alone_bind (R := fun _ => Cached fn dev first x)
        ((waitOnBuffer_alone hlasts x).conseq (fun _ h => h) fun _ _ h => h.1) fun _ => ?_
      refine alone_bind (R := fun same s => Cached fn dev first x s ∧ same = true)
        (alone_read (fun _ => hlasts.and (lasts_fact _)) fun s C => ⟨C, decide_eq_true C.key⟩)
        fun same => alone_ite (fun _ => alone_pure fun s h => ⟨h.1, rfl⟩) fun hs => ?_
      exact alone_false fun s h => hs h.2
  refine alone_body ?_
  refine alone_bind htable fun r => ?_
  refine alone_fact (p := r = some x) ?_ fun _ h => h.2
  rintro rfl
  exact alone_pure fun s h => h

/-- `breada` does not return before the read of its first block is queued. -/
theorem breada_cached (hdriver : HasDriver fn dev)
    (hallow : ∀ s, Cached fn dev first x s → ¬ allow (.request false x) s) (args : List UInt32) :
    Alone (kernel True ops) allow n (breada dev first args) (Cached fn dev first x)
      fun _ _ => False := by
  refine alone_bind getblk_cached fun r => ?_
  refine alone_fact (p := r = some x) ?_ fun _ h => h.2
  rintro rfl
  refine alone_bind (R := fun u s => Cached fn dev first x s ∧ u = false)
    (alone_read (fun _ => lasts_cached.and (lasts_fact _)) fun s h => ⟨h.1, h.1.stale⟩) fun u => ?_
  refine alone_bind (R := fun _ _ => False) (alone_when ?_ ?_) fun _ => alone_false fun _ h => h
  · exact fun _ => (readCached_never hdriver hallow).pre fun _ h => h.1
  · intro s h hu
    rw [h.2] at hu
    cases hu

end Hit

/-! ## What is read -/

section Results

variable {ops : Nat → Prog Cache Tag Proc Ret → Prop} {args : List UInt32} {l : List (Tag × Cache)}
  {r : Ret}

theorem Orderly.ahead (O : Orderly N s) (h : idle → NotRead N dev first s) :
    (contract (ahead s.buf.count N s.requestFn s.mounted dev first idle) ops).inv beginning s := by
  refine ⟨O.shape, O.users, O.locks, rfl, rfl, ?_, h⟩
  intro t x hl
  unfold beginning at hl
  rw [lock_update] at hl
  split at hl <;> cases hl

/-- What `breada` gives back, and what it may have read. -/
theorem breada_gives (O : Orderly N s)
    (h : (kernel True ops).Returns (breada dev first args) s l r s') :
    GivesFirst N s s' dev first r ∧
      ∀ b, Started l dev b → MayRead s.mounted dev first dev b ∧ HasDriver s.requestFn dev := by
  let P := ahead s.buf.count N s.requestFn s.mounted dev first False
  have hspec : ∀ n, Holds (contract P ops) n (breada dev first args) (fun g _ => g = holding [])
      (fun r g s => (∀ h, r = some h → GotReady P dev first [] h g s) ∧
        (r = none → g = holding [])) :=
    fun n => breada_spec (call_spec n) dev first args (Or.inl ⟨rfl, rfl⟩)
  have hstable : Stable (contract P ops) fun g s =>
      (∀ h, r = some h → GotReady P dev first [] h g s) ∧ (r = none → g = holding []) := by
    intro G t s s' hi hs he
    exact ⟨fun h hr => stable_gotReady G t s s' hi (hs.1 h hr) he, hs.2⟩
  have hallow : ∀ e, e ∈ l → P.allow e.1 e.2 := by
    rintro ⟨tag, s₁⟩ -
    cases tag with
    | request w bh =>
      cases w with
      | false => exact fun h => h.elim
      | true => trivial
    | _ => trivial
  obtain ⟨⟨G, ⟨-, I⟩, hready, hnone⟩, hcheck⟩ := Holds.returns (t := 0) hspec (fun _ h => h) hstable
    (O.ahead fun h => h.elim) (Function.update_self ..) hallow h
  refine ⟨⟨?_, ?_⟩, ?_⟩
  · intro bh hbh
    obtain ⟨⟨hg, -, -⟩, hu, -⟩ := hready bh hbh
    obtain ⟨hlt, hd, hb⟩ := I.users.key hg (List.mem_cons_self ..)
    exact ⟨hlt, hd, hb, hu⟩
  · -- the references are the result, or none
    intro x hx
    rw [I.users.count x hx]
    cases r with
    | none =>
      rw [hnone rfl]
      simp
    | some bh =>
      rw [(hready bh rfl).1.1]
      by_cases hbh : bh = x <;> simp [hbh]
  · rintro b ⟨x, s₁, hmem, rfl, rfl⟩
    obtain ⟨_, -, hqueued⟩ := hcheck _ hmem
    exact hqueued rfl

/-- The first block is read, if it has still to be. -/
theorem breada_starts_first (O : Orderly N s) (hdriver : HasDriver s.requestFn dev)
    (hw : Wanted s dev first) (h : (kernel True ops).Returns (breada dev first args) s l r s') :
    Started l dev first := by
  by_contra hno
  obtain ⟨order, chain, Q⟩ := O.shape.queues
  have hdev : dev ≠ 0 := by
    rintro rfl
    have h0 : s.requestFn 0 = true := hdriver.2
    rw [O.noDev] at h0
    cases h0
  cases hf : findBuffer s.buf dev first with
  | none =>
    rw [Q.findBuffer] at hf
    cases hf
  | some f =>
    cases f with
    | none =>
      -- no buffer has the block
      have hnone := ((findBuffer_eq_none Q).mp hf).resolve_left hdev
      have hread : True → NotRead N dev first s := by
        intro _ x hx hd hb
        rw [← O.shape.nr] at hx
        exact absurd ⟨hd, hb⟩ (hnone x hx)
      have hallow : ∀ e, e ∈ l →
          (ahead s.buf.count N s.requestFn s.mounted dev first True).allow e.1 e.2 := by
        rintro ⟨tag, s₁⟩ he
        cases tag with
        | request w bh =>
          cases w with
          | false => exact fun _ hkey => hno ⟨bh, s₁, he, hkey⟩
          | true => trivial
        | _ => trivial
      obtain ⟨⟨_, -, hfalse⟩, -⟩ := Holds.returns (t := 0)
        (fun n => breada_missing (n := n) trivial hdriver args) (fun _ h => h)
        (fun _ _ _ _ _ h _ => h) (O.ahead hread) (Function.update_self ..) hallow h
      exact hfalse
    | some x =>
      obtain ⟨-, -, hd, hb⟩ := (findBuffer_eq_some Q).mp hf
      obtain ⟨hu, hpending⟩ := hw x hf
      let allow : Tag → Cache → Prop := fun tag s₁ =>
        tag = .request false x → ¬ (s₁.buf.dev x = dev ∧ s₁.buf.blocknr x = first)
      have hnever : ∀ n, Alone (kernel True ops) allow n (breada dev first args)
          (Cached s.requestFn dev first x) fun _ _ => False :=
        fun n => breada_cached hdriver (fun s₁ C ha => ha rfl C.key) args
      refine Alone.returns hnever lasts_cached ⟨rfl, hf, ⟨hd, hb⟩, hu, hpending⟩ ?_ h
      rintro ⟨tag, s₁⟩ he htag hkey
      dsimp only at htag
      subst htag
      exact hno ⟨x, s₁, he, hkey⟩

/-- **`breada` reads its first block**: the caller is given that block's buffer with one
reference, or nothing, and no other reference is left. Of the blocks that have still to be
read a read is started if the first is the only one and its device has a driver; on a
device without inodes in core, exactly then. -/
theorem breada_reads_first (O : Orderly N s)
    (h : (kernel True ops).Returns (breada dev first args) s l r s') :
    GivesFirst N s s' dev first r ∧
      (FirstOnly s dev first args →
        ∀ b, b ∈ first :: listed args → Wanted s dev b → Started l dev b) ∧
      (s.mounted dev = false →
        (∀ b, b ∈ first :: listed args → Wanted s dev b → Started l dev b) →
          FirstOnly s dev first args) := by
  obtain ⟨hgives, hstarted⟩ := breada_gives O h
  refine ⟨hgives, ?_, ?_⟩
  · intro hfirst b hb hw
    obtain ⟨rfl, hdriver⟩ := hfirst b hb hw
    exact breada_starts_first O hdriver hw h
  · intro hm hall b hb hw
    obtain ⟨hmay, hdriver⟩ := hstarted b (hall b hb hw)
    refine ⟨?_, hdriver⟩
    rcases hmay with ⟨-, rfl⟩ | hcore
    · rfl
    · rw [hm] at hcore
      cases hcore

end Results

/-! ## A block that is not read -/

theorem orderly_boot {n : Nat} (hn : 0 < n) (hfn : s.requestFn 0 = false) :
    Orderly n (s.boot n) := by
  refine ⟨shape_boot hn s, hfn, ?_, ?_, ?_⟩
  · intro h hh
    have hc := (initHeads n { s.buf with nrBuffers := n }).2 h hh
    rw [show (s.boot n).buf.count h = 0 from hc.2.2.2.2.2.1]
    decide
  · intro i r hr
    cases hr
  · intro i j r r' hr
    cases hr

/-- The kernel, with requests that may fail. -/
def aheadKernel : Kernel Cache Tag Proc Ret := kernel True fun _ _ => True

/-- A cache of three buffers that hold nothing, and a disk. -/
def emptyCache : Cache := zeroCache.boot 3

/-- `breada` of blocks 0 and 1 of the disk, up to the wait for block 0. -/
def breadaWaits (k : Ret → Prog Cache Tag Proc Ret) :
    Prog Cache Tag Proc Ret × List (Tag × Cache) × Cache :=
  aheadKernel.advance 50 (breada 0x301 0 [1, 0xffffffff] k) emptyCache

/-- The same once block 0 has been read. -/
def breadaWakes (k : Ret → Prog Cache Tag Proc Ret) :
    Prog Cache Tag Proc Ret × List (Tag × Cache) × Cache :=
  match breadaWaits k with
  | (.sleep next, _, s) =>
    aheadKernel.advance 3 next (s.endRequest 31 ⟨false, 0, 0x301, 0⟩ true fun _ => 0)
  | stopped => stopped

set_option maxRecDepth 4000 in
/-- It comes back with buffer 0, having asked for block 0 only. -/
theorem breada_runs : ∃ l s', aheadKernel.Returns (breada 0x301 0 [1, 0xffffffff]) emptyCache l
    (some 0) s' ∧ ∀ x s, (Tag.request false x, s) ∈ l → s.buf.blocknr x = 0 := by
  refine ⟨(breadaWaits fun _ => .done).2.1 ++ (breadaWakes fun _ => .done).2.1,
    (breadaWakes fun _ => .done).2.2, fun k => ?_, ?_⟩
  · have hwaits := path_advance aheadKernel 50 (breada 0x301 0 [1, 0xffffffff] k) emptyCache
    have hwakes : aheadKernel.Path (breadaWaits k).1 (breadaWaits k).2.2 (breadaWakes k).2.1
        (k (some 0)) (breadaWakes k).2.2 := by
      refine .sleep (.interrupt ?_ (path_advance aheadKernel 3 _ _))
      exact ⟨31, ⟨false, 0, 0x301, 0⟩, true, _, by decide, rfl, fun h => (by cases h), rfl⟩
    exact hwaits.trans hwakes
  · have hlog : ((breadaWaits fun _ => .done).2.1 ++ (breadaWakes fun _ => .done).2.1).all
        (fun e => match e.1 with
          | .request false x => e.2.buf.blocknr x = 0
          | _ => true) = true := by
      decide +kernel
    intro x s hx
    simpa using List.all_eq_true.mp hlog _ hx

theorem wanted_empty (dev : UInt16) (b : UInt32) : Wanted emptyCache dev b := by
  intro x hx
  have hnone : findBuffer emptyCache.buf dev b = some none := by
    refine (findBuffer_eq_none (queues_bufferInit (by decide) zeroCache.buf)).mpr ?_
    by_cases hd : dev = 0
    · exact Or.inl hd
    · refine Or.inr fun h hh hkey => hd ?_
      have hdev := ((initHeads 3 { zeroCache.buf with nrBuffers := 3 }).2 h hh).1
      rw [← hkey.1]
      exact hdev
  rw [hnone] at hx
  cases hx

theorem breada_reads_first_disk : ∃ l s',
    aheadKernel.Returns (breada 0x301 0 [1, 0xffffffff]) emptyCache l (some 0) s' ∧
      GivesFirst 3 emptyCache s' 0x301 0 (some 0) ∧
      ¬ ∀ b, b ∈ (0 : UInt32) :: listed [1, 0xffffffff] →
        Wanted emptyCache 0x301 b → Started l 0x301 b := by
  obtain ⟨l, s', hrun, -⟩ := breada_runs
  obtain ⟨hgives, -, honly⟩ := breada_reads_first (orderly_boot (by decide) rfl) hrun
  refine ⟨l, s', hrun, hgives, fun hall => ?_⟩
  obtain ⟨hfirst, -⟩ := honly rfl hall 1 (by decide) (wanted_empty _ _)
  exact absurd hfirst (by decide)

/-- **Nothing is read ahead**: `breada` of blocks 0 and 1 comes back with block 0 and has not
asked for block 1. -/
theorem breada_reads_nothing_ahead :
    ¬ ∀ (N : Nat) (s s' : Cache) (dev : UInt16) (first : UInt32) (args : List UInt32)
        (l : List (Tag × Cache)) (r : Ret), Orderly N s →
      (∃ i, i < nrRequest ∧ s.request i = none) → HasDriver s.requestFn dev →
      aheadKernel.Returns (breada dev first args) s l r s' →
        ∀ b, b ∈ first :: listed args → Wanted s dev b → Started l dev b := by
  intro hall
  obtain ⟨l, s', hrun, hlog⟩ := breada_runs
  obtain ⟨x, s₁, hmem, -, hb⟩ := hall 3 emptyCache s' 0x301 0 [1, 0xffffffff] l (some 0)
    (orderly_boot (by decide) rfl) ⟨0, by decide, rfl⟩ ⟨by decide, rfl⟩ hrun 1 (by decide)
    (wanted_empty _ _)
  rw [hlog x s₁ hmem] at hb
  exact absurd hb (by decide)

end Linux011.Fs
