import Linux011.Fs.CacheRuns
import Linux011.Lib.RefCount

/-!
# Block devices — what is read is what was written

`block_read` and `block_write` on a device of which no inode is in core, with
other tasks reading, evicting and writing back buffers, and requests that all
succeed.

A buffer that is up to date or dirty holds the bytes last written; a block
that is not in a dirty buffer or in one being written holds them on disk. A
whole block is written without `b_uptodate` being set: if such a buffer is then
read, the request overwrites it and what was written is lost.

* `References`, `Locks`, `Bytes` — the invariant;
* `device` — it is kept by every action, if no read is queued for a dirty
  buffer and every position is that of its block;
* `block_read_returns_last_written` — the runs;
* `block_read_loses_write` — what happens otherwise.
-/

namespace Linux011.Fs

open Linux011.Lib
open Linux011.Lib.Kernel

def nrTasks : Nat := 64

/-- The references tasks hold to head `h`. -/
def held (G : Nat → Hold) (h : Nat) : Nat :=
  ∑ t ∈ Finset.range nrTasks, (G t).refs.countP fun r => r.bh = h

theorem held_update {G : Nat → Hold} {t : Nat} (ht : t < nrTasks) (g : Hold) (h : Nat) :
    held (Function.update G t g) h + (G t).refs.countP (fun r => r.bh = h) =
      held G h + g.refs.countP fun r => r.bh = h := by
  have hmem : t ∈ Finset.range nrTasks := Finset.mem_range.mpr ht
  have hsum := sum_update hmem G g fun x => x.refs.countP fun r => r.bh = h
  unfold held
  exact hsum

/-- Reference counts are exact, a referenced head keeps its block, and no task
holds more than two references. -/
structure References (N : Nat) (G : Nat → Hold) (s : Cache) : Prop where
  few   : ∀ t, (G t).refs.length ≤ 2
  live  : ∀ t, (G t).live = true → t < nrTasks
  dead  : ∀ t, (G t).live = false → (G t).refs = [] ∧ (G t).lock = none
  count : ∀ h, h < N → s.buf.count h = held G h
  keys  : ∀ t r, r ∈ (G t).refs →
    r.bh < N ∧ s.buf.dev r.bh = r.dev ∧ s.buf.blocknr r.bh = r.block

/-- A locked head is locked by one task or has one request; the command a task
is about to queue is a useful one. -/
structure Locks (N : Nat) (G : Nat → Hold) (s : Cache) : Prop where
  owner   : ∀ t h x, (G t).lock = some (h, x) → h < N ∧ s.buf.lock h = true
  idle    : ∀ t h x i r, (G t).lock = some (h, x) → s.request i = some r → r.bh ≠ h
  useful  : ∀ t h, (G t).lock = some (h, some true) → s.buf.dirt h = true
  useful' : ∀ t h, (G t).lock = some (h, some false) → s.buf.uptodate h = false
  one     : ∀ t t' h x x', (G t).lock = some (h, x) → (G t').lock = some (h, x') → t = t'
  pending : ∀ i r, s.request i = some r → r.bh < N ∧ s.buf.lock r.bh = true ∧
    s.buf.dev r.bh = r.dev ∧ s.buf.blocknr r.bh = r.block
  single  : ∀ i j r r', s.request i = some r → s.request j = some r' → r.bh = r'.bh → i = j

/-- A device used through `block_read` and `block_write` only. -/
def Raw (m : UInt16 → Bool) (dev : UInt16) : Prop := dev ≠ 0 ∧ m dev = false

/-- The buffer holds the bytes last written to its block. -/
def Current (s : Cache) (h : Nat) : Prop :=
  ∀ j, j < blockSize → s.data h j =
    s.last (s.buf.dev h) ((s.buf.blocknr h).toNat * blockSize + j)

/-- Some head has bytes of the block that the disk has not. -/
def Unsaved (N : Nat) (s : Cache) (dev : UInt16) (block : UInt32) : Prop :=
  ∃ h, h < N ∧ s.buf.dev h = dev ∧ s.buf.blocknr h = block ∧
    (s.buf.dirt h = true ∨ ∃ i r, s.request i = some r ∧ r.bh = h ∧ r.write = true)

/-- Where the bytes last written are. -/
structure Bytes (N : Nat) (m : UInt16 → Bool) (s : Cache) : Prop where
  mounted : s.mounted = m
  cached  : ∀ h, h < N → Raw m (s.buf.dev h) →
    (s.buf.uptodate h = true ∨ s.buf.dirt h = true) → Current s h
  queued  : ∀ i r, s.request i = some r → Raw m r.dev → s.buf.dirt r.bh = false
  writing : ∀ i r, s.request i = some r → Raw m r.dev → r.write = true → Current s r.bh
  saved   : ∀ dev block, Raw m dev → ¬ Unsaved N s dev block → ∀ j, j < blockSize →
    s.disk dev block j = s.last dev (block.toNat * blockSize + j)

structure DeviceInv (N : Nat) (m : UInt16 → Bool) (G : Nat → Hold) (s : Cache) : Prop where
  refs  : References N G s
  locks : Locks N G s
  bytes : Bytes N m s

/-- The runs considered: no read is queued for a dirty buffer, and the bytes
copied are at the position the call is at. -/
def deviceAllow : Tag → Cache → Prop
  | .request write bh, s => write = false → s.buf.dirt bh = false
  | .copyIn _ _ block offset pos _, _ | .copyOut _ _ block offset pos _, _ =>
    pos.toNat = block.toNat * blockSize + offset
  | .takeover _ _ _, _ => True

variable {N : Nat} {m : UInt16 → Bool} {G : Nat → Hold} {s : Cache} {t : Nat} {L : List Ref}

/-! ## References -/

/-- References do not depend on flags, bytes and requests. -/
theorem References.congr {G' : Nat → Hold} {s' : Cache} (R : References N G s)
    (hrefs : ∀ t, (G' t).refs = (G t).refs) (hlive : ∀ t, (G' t).live = (G t).live)
    (hlock : ∀ t, (G t).live = false → (G' t).lock = (G t).lock)
    (hcount : s'.buf.count = s.buf.count) (hkeys : SameKeys s s') : References N G' s' := by
  have hheld : ∀ h, held G' h = held G h := by
    intro h
    unfold held
    exact Finset.sum_congr rfl fun x _ => by rw [hrefs]
  refine ⟨?_, ?_, ?_, ?_, ?_⟩
  · intro t
    rw [hrefs]
    exact R.few t
  · intro t ht
    rw [hlive] at ht
    exact R.live t ht
  · intro t ht
    rw [hlive] at ht
    rw [hrefs, hlock t ht]
    exact R.dead t ht
  · intro h hh
    rw [hcount, hheld]
    exact R.count h hh
  · intro t r hr
    rw [hrefs] at hr
    rw [hkeys.1, hkeys.2]
    exact R.keys t r hr

/-- A task that is alive changes its lock. -/
theorem References.relock {s' : Cache} {l l' : Option (Nat × Option Bool)} (R : References N G s)
    (hg : G t = ⟨l, L, true⟩) (hcount : s'.buf.count = s.buf.count) (hkeys : SameKeys s s') :
    References N (Function.update G t ⟨l', L, true⟩) s' := by
  refine R.congr ?_ ?_ ?_ hcount hkeys
  · intro t'
    by_cases h : t' = t
    · subst h
      rw [Function.update_self, hg]
    · rw [Function.update_of_ne h]
  · intro t'
    by_cases h : t' = t
    · subst h
      rw [Function.update_self, hg]
    · rw [Function.update_of_ne h]
  · intro t' hdead
    by_cases h : t' = t
    · subst h
      rw [hg] at hdead
      cases hdead
    · rw [Function.update_of_ne h]

theorem References.held_le (R : References N G s) (h : Nat) : held G h ≤ 128 := by
  have hle : held G h ≤ ∑ _t ∈ Finset.range nrTasks, 2 := by
    refine Finset.sum_le_sum ?_
    intro x _
    exact Nat.le_trans List.countP_le_length (R.few x)
  exact Nat.le_trans hle (by decide)

/-- A task that is alive changes its references, and the counts follow. -/
theorem References.move {s' : Cache} {L' : List Ref} (R : References N G s)
    (hg : G t = holding L) (hlen : L'.length ≤ 2)
    (hcount : ∀ h, h < N → s'.buf.count h + L.countP (fun r => r.bh = h) =
      s.buf.count h + L'.countP fun r => r.bh = h)
    (hkeys : ∀ t' r, r ∈ (Function.update G t (holding L') t').refs →
      r.bh < N ∧ s'.buf.dev r.bh = r.dev ∧ s'.buf.blocknr r.bh = r.block) :
    References N (Function.update G t (holding L')) s' := by
  have ht : t < nrTasks := R.live t (by rw [hg])
  refine ⟨?_, ?_, ?_, ?_, hkeys⟩
  · intro t'
    by_cases h : t' = t
    · subst h
      rw [Function.update_self]
      exact hlen
    · rw [Function.update_of_ne h]
      exact R.few t'
  · intro t' hl
    by_cases h : t' = t
    · subst h
      exact ht
    · rw [Function.update_of_ne h] at hl
      exact R.live t' hl
  · intro t' hl
    by_cases h : t' = t
    · subst h
      rw [Function.update_self] at hl
      cases hl
    · rw [Function.update_of_ne h] at hl ⊢
      exact R.dead t' hl
  · intro h hh
    have h1 := held_update ht (holding L') h (G := G)
    rw [hg] at h1
    have h2 := hcount h hh
    have h3 := R.count h hh
    dsimp only at h1
    omega

/-- A reference more, and a count more. -/
theorem incCount_refs {r : Ref} {h : Nat} (hsmall : s.buf.count h < 255) :
    (s.incCount r.bh).buf.count h + L.countP (fun r => r.bh = h) =
      s.buf.count h + (r :: L).countP fun r => r.bh = h := by
  show Function.update s.buf.count r.bh ((s.buf.count r.bh + 1) % 256) h + _ = _
  rw [List.countP_cons, Function.update_apply]
  by_cases hrh : h = r.bh
  · subst hrh
    simp only [if_true, decide_true]
    omega
  · rw [if_neg hrh, if_neg (by simpa using Ne.symm hrh), Nat.add_zero]

theorem decCount_refs {r : Ref} {h : Nat} (hpos : h = r.bh → 0 < s.buf.count h)
    (hsmall : s.buf.count h < 256) :
    (s.decCount r.bh).buf.count h + (r :: L).countP (fun r => r.bh = h) =
      s.buf.count h + L.countP fun r => r.bh = h := by
  show Function.update s.buf.count r.bh ((s.buf.count r.bh + 255) % 256) h + _ = _
  rw [List.countP_cons, Function.update_apply]
  by_cases hrh : h = r.bh
  · have hone := hpos hrh
    subst hrh
    simp only [if_true, decide_true]
    omega
  · rw [if_neg hrh, if_neg (by simpa using Ne.symm hrh), Nat.add_zero]

theorem TakenOver.refs {bh : Nat} (h0 : s.buf.count bh = 0) {dev : UInt16} {block : UInt32}
    {b : Buffers} (T : TakenOver s.buf bh dev block b) (h : Nat) :
    b.count h + L.countP (fun r => r.bh = h) =
      s.buf.count h + (⟨bh, dev, block⟩ :: L : List Ref).countP fun r => r.bh = h := by
  rw [T.count, List.countP_cons, Function.update_apply]
  by_cases hrh : h = bh
  · subst hrh
    simp only [if_true, decide_true]
    omega
  · rw [if_neg hrh, if_neg (by simpa using Ne.symm hrh), Nat.add_zero]

theorem References.acquire (R : References N G s) (hg : G t = holding L) (hL : L.length ≤ 1)
    {r : Ref} (hr : r.bh < N) (hd : s.buf.dev r.bh = r.dev) (hb : s.buf.blocknr r.bh = r.block) :
    References N (Function.update G t (holding (r :: L))) (s.incCount r.bh) := by
  refine R.move hg (by simpa using hL) ?_ ?_
  · intro h hh
    have hle := R.held_le h
    rw [← R.count h hh] at hle
    exact incCount_refs (by omega)
  · intro t' r' hr'
    by_cases h : t' = t
    · subst h
      rw [Function.update_self] at hr'
      rcases List.mem_cons.mp hr' with rfl | hr'
      · exact ⟨hr, hd, hb⟩
      · exact R.keys t' r' (by rw [hg]; exact hr')
    · rw [Function.update_of_ne h] at hr'
      exact R.keys t' r' hr'

theorem References.release (R : References N G s) {r : Ref} (hg : G t = holding (r :: L)) :
    References N (Function.update G t (holding L)) (s.decCount r.bh) := by
  have hfew : (r :: L).length ≤ 2 := by
    have := R.few t
    rw [hg] at this
    exact this
  have ht : t < nrTasks := R.live t (by rw [hg])
  have hr : r.bh < N := (R.keys t r (by rw [hg]; exact List.mem_cons_self ..)).1
  refine R.move hg (by simp only [List.length_cons] at hfew; omega) ?_ ?_
  · intro h hh
    have hle := R.held_le h
    rw [← R.count h hh] at hle
    refine decCount_refs ?_ (by omega)
    rintro rfl
    -- the reference itself is counted
    have h1 := held_update ht (holding L) r.bh (G := G)
    rw [hg, List.countP_cons] at h1
    rw [R.count r.bh hr]
    simp only [decide_true, if_true] at h1
    omega
  · intro t' r' hr'
    by_cases h : t' = t
    · subst h
      rw [Function.update_self] at hr'
      exact R.keys t' r' (by rw [hg]; exact List.mem_cons_of_mem _ hr')
    · rw [Function.update_of_ne h] at hr'
      exact R.keys t' r' hr'

/-- Nobody holds a head whose count is 0. -/
theorem References.free (R : References N G s) {bh : Nat} (hbh : bh < N)
    (h0 : s.buf.count bh = 0) {r : Ref} (hr : r ∈ (G t).refs) : r.bh ≠ bh := by
  intro he
  have ht : t < nrTasks := by
    refine R.live t ?_
    by_contra hl
    rw [(R.dead t (by simpa using hl)).1] at hr
    cases hr
  rw [R.count bh hbh] at h0
  have hz : (G t).refs.countP (fun r => r.bh = bh) = 0 :=
    Finset.sum_eq_zero_iff.mp h0 t (Finset.mem_range.mpr ht)
  exact (List.countP_eq_zero.mp hz) r hr (by simpa using he)

theorem References.takeover (R : References N G s) (hg : G t = holding L) (hL : L.length ≤ 1)
    {bh : Nat} (hbh : bh < N) (h0 : s.buf.count bh = 0) {dev : UInt16} {block : UInt32}
    {b : Buffers} (T : TakenOver s.buf bh dev block b) :
    References N (Function.update G t (holding (⟨bh, dev, block⟩ :: L))) { s with buf := b } := by
  refine R.move hg (by simpa using hL) (fun h _ => T.refs h0 h) ?_
  · intro t' r' hr'
    show r'.bh < N ∧ b.dev r'.bh = r'.dev ∧ b.blocknr r'.bh = r'.block
    rw [T.dev, T.blocknr]
    have hold : ∀ t'', r' ∈ (G t'').refs → r'.bh < N ∧
        Function.update s.buf.dev bh dev r'.bh = r'.dev ∧
        Function.update s.buf.blocknr bh block r'.bh = r'.block := by
      intro t'' hr''
      have hne := R.free hbh h0 hr''
      rw [Function.update_of_ne hne, Function.update_of_ne hne]
      exact R.keys t'' r' hr''
    by_cases h : t' = t
    · subst h
      rw [Function.update_self] at hr'
      rcases List.mem_cons.mp hr' with rfl | hr'
      · exact ⟨hbh, Function.update_self .., Function.update_self ..⟩
      · exact hold t' (by rw [hg]; exact hr')
    · rw [Function.update_of_ne h] at hr'
      exact hold t' hr'

/-! ## Locks -/

theorem update_true {f : Nat → Bool} {h : Nat} (hf : f h = true) (x : Nat) :
    Function.update f x true h = true := by
  rw [Function.update_apply]
  split
  · rfl
  · exact hf

theorem lock_update (G : Nat → Hold) (t : Nat) (g : Hold) (t' : Nat) :
    (Function.update G t g t').lock = if t' = t then g.lock else (G t').lock := by
  rw [Function.update_apply]
  split <;> rfl

/-- A change that leaves locked heads alone. -/
theorem Locks.keep {G' : Nat → Hold} {s' : Cache} (K : Locks N G s)
    (hG : ∀ t, (G' t).lock = (G t).lock) (hreq : s'.request = s.request)
    (h : ∀ h, s.buf.lock h = true → s'.buf.lock h = true ∧
      (s.buf.dirt h = true → s'.buf.dirt h = true) ∧
      (s.buf.uptodate h = false → s'.buf.uptodate h = false) ∧
      s'.buf.dev h = s.buf.dev h ∧ s'.buf.blocknr h = s.buf.blocknr h) : Locks N G' s' := by
  refine ⟨?_, ?_, ?_, ?_, ?_, ?_, ?_⟩
  · intro t x c hl
    rw [hG] at hl
    obtain ⟨h1, h2⟩ := K.owner t x c hl
    exact ⟨h1, (h x h2).1⟩
  · intro t x c i r hl hr
    rw [hG] at hl
    rw [hreq] at hr
    exact K.idle t x c i r hl hr
  · intro t x hl
    rw [hG] at hl
    exact (h x (K.owner t x _ hl).2).2.1 (K.useful t x hl)
  · intro t x hl
    rw [hG] at hl
    exact (h x (K.owner t x _ hl).2).2.2.1 (K.useful' t x hl)
  · intro t t' x c c' hl hl'
    rw [hG] at hl hl'
    exact K.one t t' x c c' hl hl'
  · intro i r hr
    rw [hreq] at hr
    obtain ⟨h1, h2, h3, h4⟩ := K.pending i r hr
    obtain ⟨h5, -, -, h6, h7⟩ := h r.bh h2
    rw [h6, h7]
    exact ⟨h1, h5, h3, h4⟩
  · intro i j r r' hr hr'
    rw [hreq] at hr hr'
    exact K.single i j r r' hr hr'

/-- A task that has nothing locked changes its references. -/
theorem Locks.refs {s' : Cache} {L' : List Ref} (K : Locks N G s) (hg : G t = holding L)
    (hreq : s'.request = s.request)
    (h : ∀ h, s.buf.lock h = true → s'.buf.lock h = true ∧
      (s.buf.dirt h = true → s'.buf.dirt h = true) ∧
      (s.buf.uptodate h = false → s'.buf.uptodate h = false) ∧
      s'.buf.dev h = s.buf.dev h ∧ s'.buf.blocknr h = s.buf.blocknr h) :
    Locks N (Function.update G t (holding L')) s' := by
  refine K.keep ?_ hreq h
  intro t'
  rw [lock_update]
  split
  · next he => rw [he, hg]
  · rfl

/-- A head that is not locked is taken over. -/
theorem Locks.takeover (K : Locks N G s) {L' : List Ref} (hg : G t = holding L) {bh : Nat}
    (hl : s.buf.lock bh = false) {dev : UInt16} {block : UInt32} {b : Buffers}
    (T : TakenOver s.buf bh dev block b) :
    Locks N (Function.update G t (holding L')) { s with buf := b } := by
  refine K.refs hg rfl ?_
  intro h hlock
  have hne : h ≠ bh := by
    rintro rfl
    rw [hl] at hlock
    cases hlock
  dsimp only
  rw [T.lock, T.dirt, T.uptodate, T.dev, T.blocknr, Function.update_of_ne hne,
    Function.update_of_ne hne, Function.update_of_ne hne, Function.update_of_ne hne]
  exact ⟨hlock, id, id, rfl, rfl⟩

theorem Locks.lock (K : Locks N G s) {bh : Nat} (hbh : bh < N) (hl : s.buf.lock bh = false) :
    Locks N (Function.update G t (locking bh none L)) (s.setLock bh true) := by
  have hset : ∀ h, (s.setLock bh true).buf.lock h = if h = bh then true else s.buf.lock h :=
    fun h => Function.update_apply ..
  -- no head that was locked is `bh`
  have hfree : ∀ t' h x, (G t').lock = some (h, x) → h ≠ bh := by
    rintro t' h x h1 rfl
    rw [(K.owner t' h x h1).2] at hl
    cases hl
  have hreq : ∀ i r, s.request i = some r → r.bh ≠ bh := by
    rintro i r hr rfl
    rw [(K.pending i r hr).2.1] at hl
    cases hl
  refine ⟨?_, ?_, ?_, ?_, ?_, ?_, K.single⟩
  · intro t' h x h1
    rw [lock_update] at h1
    rw [hset]
    split at h1
    · cases h1
      exact ⟨hbh, if_pos rfl⟩
    · rw [if_neg (hfree t' h x h1)]
      exact K.owner t' h x h1
  · intro t' h x i r h1 hr
    rw [lock_update] at h1
    split at h1
    · cases h1
      exact hreq i r hr
    · exact K.idle t' h x i r h1 hr
  · intro t' h h1
    rw [lock_update] at h1
    split at h1
    · cases h1
    · exact K.useful t' h h1
  · intro t' h h1
    rw [lock_update] at h1
    split at h1
    · cases h1
    · exact K.useful' t' h h1
  · intro t₁ t₂ h x x' h1 h2
    rw [lock_update] at h1 h2
    split at h1 <;> split at h2
    · next e1 e2 => rw [e1, e2]
    · cases h1
      exact absurd rfl (hfree t₂ _ _ h2)
    · cases h2
      exact absurd rfl (hfree t₁ _ _ h1)
    · exact K.one t₁ t₂ h x x' h1 h2
  · intro i r hr
    obtain ⟨h1, h2, h3⟩ := K.pending i r hr
    exact ⟨h1, by rw [hset]; split <;> [rfl; exact h2], h3⟩

/-- The task that locked `bh` learns that its command is useful. -/
theorem Locks.use (K : Locks N G s) {bh : Nat} {w : Bool} (hg : G t = locking bh none L)
    (hw : if w then s.buf.dirt bh = true else s.buf.uptodate bh = false) :
    Locks N (Function.update G t (locking bh (some w) L)) s := by
  have hown : (G t).lock = some (bh, none) := by rw [hg]
  -- the head locked by each task is the same
  have hsame : ∀ t' h x, (Function.update G t (locking bh (some w) L) t').lock = some (h, x) →
      ∃ x', (G t').lock = some (h, x') := by
    intro t' h x h1
    rw [lock_update] at h1
    split at h1
    · next he =>
      cases h1
      exact ⟨none, by rw [he]; exact hown⟩
    · exact ⟨x, h1⟩
  refine ⟨?_, ?_, ?_, ?_, ?_, K.pending, K.single⟩
  · intro t' h x h1
    obtain ⟨x', h2⟩ := hsame t' h x h1
    exact K.owner t' h x' h2
  · intro t' h x i r h1 hr
    obtain ⟨x', h2⟩ := hsame t' h x h1
    exact K.idle t' h x' i r h2 hr
  · intro t' h h1
    rw [lock_update] at h1
    split at h1
    · cases h1
      exact hw
    · exact K.useful t' h h1
  · intro t' h h1
    rw [lock_update] at h1
    split at h1
    · cases h1
      exact hw
    · exact K.useful' t' h h1
  · intro t₁ t₂ h x x' h1 h2
    obtain ⟨y, h1'⟩ := hsame t₁ h x h1
    obtain ⟨y', h2'⟩ := hsame t₂ h x' h2
    exact K.one t₁ t₂ h y y' h1' h2'

/-- The task that locked `bh` unlocks it. -/
theorem Locks.unlock (K : Locks N G s) {bh : Nat} {c : Option Bool} (hg : G t = locking bh c L) :
    Locks N (Function.update G t (holding L)) (s.setLock bh false) := by
  have hown : (G t).lock = some (bh, c) := by rw [hg]
  have hset : ∀ h, (s.setLock bh false).buf.lock h = if h = bh then false else s.buf.lock h :=
    fun h => Function.update_apply ..
  have hold : ∀ t' h x, (Function.update G t (holding L) t').lock = some (h, x) →
      (G t').lock = some (h, x) ∧ h ≠ bh := by
    intro t' h x h1
    rw [lock_update] at h1
    split at h1
    · cases h1
    · next hne =>
      refine ⟨h1, ?_⟩
      rintro rfl
      exact hne (K.one t' t h x c h1 hown)
  refine ⟨?_, ?_, ?_, ?_, ?_, ?_, K.single⟩
  · intro t' h x h1
    obtain ⟨h2, hne⟩ := hold t' h x h1
    rw [hset, if_neg hne]
    exact K.owner t' h x h2
  · intro t' h x i r h1 hr
    exact K.idle t' h x i r (hold t' h x h1).1 hr
  · intro t' h h1
    exact K.useful t' h (hold t' h _ h1).1
  · intro t' h h1
    exact K.useful' t' h (hold t' h _ h1).1
  · intro t₁ t₂ h x x' h1 h2
    exact K.one t₁ t₂ h x x' (hold t₁ h x h1).1 (hold t₂ h x' h2).1
  · intro i r hr
    obtain ⟨h1, h2, h3⟩ := K.pending i r hr
    rw [hset, if_neg (K.idle t bh c i r hown hr)]
    exact ⟨h1, h2, h3⟩

/-- The request of the task that locked `bh` is queued. -/
theorem Locks.queue (K : Locks N G s) {bh i : Nat} {w : Bool} {c : Option Bool}
    (hg : G t = locking bh c L) :
    Locks N (Function.update G t (holding L)) (s.addRequest i w bh) := by
  have hown : (G t).lock = some (bh, c) := by rw [hg]
  have hold : ∀ t' h x, (Function.update G t (holding L) t').lock = some (h, x) →
      (G t').lock = some (h, x) ∧ h ≠ bh := by
    intro t' h x h1
    rw [lock_update] at h1
    split at h1
    · cases h1
    · next hne =>
      refine ⟨h1, ?_⟩
      rintro rfl
      exact hne (K.one t' t h x c h1 hown)
  have hreq : ∀ j r, (s.addRequest i w bh).request j = some r →
      (j = i ∧ r = ⟨w, bh, s.buf.dev bh, s.buf.blocknr bh⟩) ∨
        (j ≠ i ∧ s.request j = some r ∧ r.bh ≠ bh) := by
    intro j r hr
    have hupd : (s.addRequest i w bh).request = Function.update s.request i
      (some ⟨w, bh, s.buf.dev bh, s.buf.blocknr bh⟩) := rfl
    rw [hupd, Function.update_apply] at hr
    split at hr
    · next he =>
      cases hr
      exact Or.inl ⟨he, rfl⟩
    · next hne => exact Or.inr ⟨hne, hr, K.idle t bh c j r hown hr⟩
  refine ⟨?_, ?_, ?_, ?_, ?_, ?_, ?_⟩
  · intro t' h x h1
    exact K.owner t' h x (hold t' h x h1).1
  · intro t' h x j r h1 hr
    obtain ⟨h2, hne⟩ := hold t' h x h1
    rcases hreq j r hr with ⟨-, rfl⟩ | ⟨-, hr', -⟩
    · exact Ne.symm hne
    · exact K.idle t' h x j r h2 hr'
  · intro t' h h1
    obtain ⟨h2, hne⟩ := hold t' h _ h1
    show Function.update s.buf.dirt bh false h = true
    rw [Function.update_of_ne hne]
    exact K.useful t' h h2
  · intro t' h h1
    exact K.useful' t' h (hold t' h _ h1).1
  · intro t₁ t₂ h x x' h1 h2
    exact K.one t₁ t₂ h x x' (hold t₁ h x h1).1 (hold t₂ h x' h2).1
  · intro j r hr
    rcases hreq j r hr with ⟨-, rfl⟩ | ⟨-, hr', -⟩
    · exact ⟨(K.owner t bh c hown).1, (K.owner t bh c hown).2, rfl, rfl⟩
    · exact K.pending j r hr'
  · intro j k r r' hr hr' he
    rcases hreq j r hr with ⟨hj, rfl⟩ | ⟨-, hr₁, hb₁⟩
    · rcases hreq k r' hr' with ⟨hk, rfl⟩ | ⟨-, -, hb₂⟩
      · rw [hj, hk]
      · exact absurd he.symm hb₂
    · rcases hreq k r' hr' with ⟨-, rfl⟩ | ⟨-, hr₂, -⟩
      · exact absurd he hb₁
      · exact K.single j k r r' hr₁ hr₂ he

/-- A request ends. -/
theorem Locks.endRequest (K : Locks N G s) {i : Nat} {r : Request} (hr : s.request i = some r)
    (u : Bool) (bytes : Nat → UInt8) : Locks N G (s.endRequest i r u bytes) := by
  have E := ended s i r u bytes
  have hkeys := sameKeys_of_eq (queues_endRequest s i r u bytes)
  have hreq : ∀ j r', (s.endRequest i r u bytes).request j = some r' →
      s.request j = some r' ∧ j ≠ i ∧ r'.bh ≠ r.bh := by
    intro j r' hr'
    obtain ⟨hold, hne⟩ := E.left hr'
    exact ⟨hold, hne, fun he => hne (K.single j i r' r hold hr he)⟩
  have hne : ∀ t h x, (G t).lock = some (h, x) → h ≠ r.bh := fun t h x hl he =>
    K.idle t h x i r hl hr he.symm
  refine ⟨?_, ?_, ?_, ?_, K.one, ?_, ?_⟩
  · intro t h x hl
    rw [E.lock, Function.update_of_ne (hne t h x hl)]
    exact K.owner t h x hl
  · intro t h x j r' hl hr'
    exact K.idle t h x j r' hl (hreq j r' hr').1
  · intro t h hl
    rw [E.dirt]
    exact K.useful t h hl
  · intro t h hl
    rw [E.uptodate, Function.update_of_ne (hne t h _ hl)]
    exact K.useful' t h hl
  · intro j r' hr'
    obtain ⟨h1, -, h3⟩ := hreq j r' hr'
    rw [E.lock, Function.update_of_ne h3, hkeys.1, hkeys.2]
    exact K.pending j r' h1
  · intro j k r₁ r₂ h1 h2
    exact K.single j k r₁ r₂ (hreq j r₁ h1).1 (hreq k r₂ h2).1

/-! ## Bytes -/

/-- No request concerns a head that is not locked. -/
theorem Locks.unlocked (K : Locks N G s) {bh : Nat} (hl : s.buf.lock bh = false) {i : Nat}
    {r : Request} (hr : s.request i = some r) : r.bh ≠ bh := by
  rintro rfl
  rw [(K.pending i r hr).2.1] at hl
  cases hl

/-- One head for each block of a device. -/
theorem Shape.unique (hsh : Shape N s) {h h' : Nat} (hh : h < N) (hh' : h' < N)
    (hne : s.buf.dev h ≠ 0) (hd : s.buf.dev h = s.buf.dev h')
    (hb : s.buf.blocknr h = s.buf.blocknr h') : h = h' := by
  obtain ⟨order, chain, Q⟩ := hsh.queues
  rw [← hsh.nr] at hh hh'
  exact Q.unique h h' hh hh' hne hd hb

/-- The disk holds the block a read is queued for. -/
theorem Bytes.reading (B : Bytes N m s) (K : Locks N G s) (hsh : Shape N s) {i : Nat}
    {r : Request} (hr : s.request i = some r) (hraw : Raw m r.dev) (hw : r.write = false) :
    ∀ j, j < blockSize → s.disk r.dev r.block j = s.last r.dev (r.block.toNat * blockSize + j) := by
  obtain ⟨hlt, -, hd, hb⟩ := K.pending i r hr
  refine B.saved r.dev r.block hraw ?_
  rintro ⟨h, hh, hd', hb', hor⟩
  have he : h = r.bh := hsh.unique hh hlt (by rw [hd']; exact hraw.1) (hd'.trans hd.symm)
    (hb'.trans hb.symm)
  subst he
  rcases hor with hdirt | ⟨k, r', hr', hbh, hw'⟩
  · rw [B.queued i r hr hraw] at hdirt
    cases hdirt
  · obtain rfl : k = i := K.single k i r' r hr' hr hbh
    rw [hr] at hr'
    cases hr'
    rw [hw] at hw'
    cases hw'

/-- A request that succeeds: the disk and the buffer agree. -/
theorem Bytes.endRequest (B : Bytes N m s) (K : Locks N G s) (hsh : Shape N s) {i : Nat}
    {r : Request} (hr : s.request i = some r) (bytes : Nat → UInt8) :
    Bytes N m (s.endRequest i r true bytes) := by
  obtain ⟨hlt, -, hd, hb⟩ := K.pending i r hr
  -- the other requests are for other heads
  have hother : ∀ j r', Function.update s.request i none j = some r' →
      s.request j = some r' ∧ r'.bh ≠ r.bh := by
    intro j r' hr'
    rw [Function.update_apply] at hr'
    split at hr'
    · cases hr'
    · next hne => exact ⟨hr', fun he => hne (K.single j i r' r hr' hr he)⟩
  have hkept : ∀ j r', s.request j = some r' → j ≠ i →
      Function.update s.request i none j = some r' := by
    intro j r' hr' hne
    rw [Function.update_of_ne hne]
    exact hr'
  cases hw : r.write with
  | true =>
    -- the disk has the bytes of the head, which were the last written
    let disk' : UInt16 → UInt32 → Nat → UInt8 :=
      Function.update s.disk r.dev (Function.update (s.disk r.dev) r.block (s.data r.bh))
    have hs' : s.endRequest i r true bytes =
        { (({ s with disk := disk' } : Cache).setUptodate r.bh true).setLock r.bh false with
          request := Function.update s.request i none } := by
      unfold Cache.endRequest
      rw [hw]
      rfl
    rw [hs']
    refine ⟨B.mounted, ?_, ?_, ?_, ?_⟩
    · intro h hh hraw hor
      by_cases he : h = r.bh
      · subst he
        exact B.writing i r hr (hd ▸ hraw) hw
      · refine B.cached h hh hraw ?_
        have hup : Function.update s.buf.uptodate r.bh true h = s.buf.uptodate h :=
          Function.update_of_ne he ..
        exact hor.imp_left fun h1 => hup.symm.trans h1
    · intro j r' hr' hraw
      exact B.queued j r' (hother j r' hr').1 hraw
    · intro j r' hr' hraw hw'
      exact B.writing j r' (hother j r' hr').1 hraw hw'
    · intro dev block hraw hun j hj
      show Function.update s.disk r.dev (Function.update (s.disk r.dev) r.block (s.data r.bh)) dev
        block j = s.last dev _
      by_cases hkey : dev = r.dev ∧ block = r.block
      · obtain ⟨rfl, rfl⟩ := hkey
        rw [Function.update_self, Function.update_self]
        have hcur := B.writing i r hr hraw hw j hj
        rw [hd, hb] at hcur
        exact hcur
      · have hdisk : Function.update s.disk r.dev
            (Function.update (s.disk r.dev) r.block (s.data r.bh)) dev block =
            s.disk dev block := by
          by_cases hdev : dev = r.dev
          · subst hdev
            rw [Function.update_self, Function.update_of_ne (fun h => hkey ⟨rfl, h⟩)]
          · rw [Function.update_of_ne hdev]
        rw [hdisk]
        refine B.saved dev block hraw ?_ j hj
        rintro ⟨h, hh, hd', hb', hor⟩
        refine hun ⟨h, hh, hd', hb', ?_⟩
        rcases hor with hdirt | ⟨k, r', hr', hbh, hw'⟩
        · exact Or.inl hdirt
        · refine Or.inr ⟨k, r', hkept k r' hr' ?_, hbh, hw'⟩
          rintro rfl
          rw [hr] at hr'
          cases hr'
          subst hbh
          exact hkey ⟨hd'.symm.trans hd, hb'.symm.trans hb⟩
  | false =>
    let data' : Nat → Nat → UInt8 := Function.update s.data r.bh (s.disk r.dev r.block)
    have hs' : s.endRequest i r true bytes =
        { (({ s with data := data' } : Cache).setUptodate r.bh true).setLock r.bh false with
          request := Function.update s.request i none } := by
      unfold Cache.endRequest
      rw [hw]
      rfl
    rw [hs']
    have hcur : ∀ h, h ≠ r.bh → Current s h → ∀ j, j < blockSize →
        Function.update s.data r.bh (s.disk r.dev r.block) h j =
          s.last (s.buf.dev h) ((s.buf.blocknr h).toNat * blockSize + j) := by
      intro h hne hc j hj
      rw [Function.update_of_ne hne]
      exact hc j hj
    refine ⟨B.mounted, ?_, ?_, ?_, ?_⟩
    · intro h hh hraw hor
      by_cases he : h = r.bh
      · subst he
        have hraw' : Raw m r.dev := hd ▸ hraw
        intro j hj
        show Function.update s.data r.bh (s.disk r.dev r.block) r.bh j =
          s.last (s.buf.dev r.bh) ((s.buf.blocknr r.bh).toNat * blockSize + j)
        rw [Function.update_self, hd, hb]
        exact B.reading K hsh hr hraw' hw j hj
      · refine hcur h he (B.cached h hh hraw ?_)
        have hup : Function.update s.buf.uptodate r.bh true h = s.buf.uptodate h :=
          Function.update_of_ne he ..
        exact hor.imp_left fun h1 => hup.symm.trans h1
    · intro j r' hr' hraw
      exact B.queued j r' (hother j r' hr').1 hraw
    · intro j r' hr' hraw hw'
      obtain ⟨h1, h2⟩ := hother j r' hr'
      exact hcur r'.bh h2 (B.writing j r' h1 hraw hw')
    · intro dev block hraw hun
      refine B.saved dev block hraw ?_
      rintro ⟨h, hh, hd', hb', hor⟩
      refine hun ⟨h, hh, hd', hb', ?_⟩
      rcases hor with hdirt | ⟨k, r', hr', hbh, hw'⟩
      · exact Or.inl hdirt
      · refine Or.inr ⟨k, r', hkept k r' hr' ?_, hbh, hw'⟩
        rintro rfl
        rw [hr] at hr'
        cases hr'
        rw [hw] at hw'
        cases hw'

/-- A request is queued: a write takes the place of the dirty bit. -/
theorem Bytes.queue (B : Bytes N m s) (K : Locks N G s) {bh i : Nat} {w : Bool}
    (hg : G t = locking bh (some w) L) (hi : s.request i = none)
    (hallow : w = false → s.buf.dirt bh = false) : Bytes N m (s.addRequest i w bh) := by
  have hown : (G t).lock = some (bh, some w) := by rw [hg]
  have hlt : bh < N := (K.owner t bh _ hown).1
  have hdirt' : ∀ h, (s.addRequest i w bh).buf.dirt h = true → s.buf.dirt h = true := by
    intro h h1
    have h2 : Function.update s.buf.dirt bh false h = true := h1
    rw [Function.update_apply] at h2
    split at h2
    · cases h2
    · exact h2
  have hreq : ∀ j r, (s.addRequest i w bh).request j = some r →
      r = ⟨w, bh, s.buf.dev bh, s.buf.blocknr bh⟩ ∨ s.request j = some r := by
    intro j r hr
    have h2 : Function.update s.request i (some ⟨w, bh, s.buf.dev bh, s.buf.blocknr bh⟩) j =
      some r := hr
    rw [Function.update_apply] at h2
    split at h2
    · cases h2
      exact Or.inl rfl
    · exact Or.inr h2
  refine ⟨B.mounted, ?_, ?_, ?_, ?_⟩
  · intro h hh hraw hor
    exact B.cached h hh hraw (hor.imp_right (hdirt' h))
  · intro j r hr hraw
    rcases hreq j r hr with rfl | hr'
    · exact Function.update_self ..
    · have h1 := B.queued j r hr' hraw
      cases hd : (s.addRequest i w bh).buf.dirt r.bh with
      | false => rfl
      | true =>
        rw [hdirt' r.bh hd] at h1
        cases h1
  · intro j r hr hraw hw
    rcases hreq j r hr with rfl | hr'
    · have hw' : w = true := hw
      subst hw'
      exact B.cached bh hlt hraw (Or.inr (K.useful t bh hown))
    · exact B.writing j r hr' hraw hw
  · intro dev block hraw hun
    refine B.saved dev block hraw ?_
    rintro ⟨h, hh, hd, hb, hor⟩
    refine hun ⟨h, hh, hd, hb, ?_⟩
    rcases hor with hdirt | ⟨k, r, hr, hbh, hw⟩
    · by_cases he : h = bh
      · subst he
        cases w with
        | false =>
          rw [hallow rfl] at hdirt
          cases hdirt
        | true => exact Or.inr ⟨i, _, Function.update_self .., rfl, rfl⟩
      · refine Or.inl ?_
        show Function.update s.buf.dirt bh false h = true
        rw [Function.update_of_ne he]
        exact hdirt
    · refine Or.inr ⟨k, r, ?_, hbh, hw⟩
      have hne : k ≠ i := by
        rintro rfl
        rw [hi] at hr
        cases hr
      show Function.update s.request i _ k = some r
      rw [Function.update_of_ne hne]
      exact hr

/-- A clean head is taken over: its old block is on disk. -/
theorem Bytes.takeover (B : Bytes N m s) (K : Locks N G s) {bh : Nat}
    (hl : s.buf.lock bh = false) (hc : s.buf.dirt bh = false) {dev : UInt16} {block : UInt32}
    {b : Buffers} (T : TakenOver s.buf bh dev block b) : Bytes N m { s with buf := b } := by
  have hcur : ∀ h, h ≠ bh → Current s h → Current { s with buf := b } h := by
    intro h hne hc j hj
    show s.data h j = s.last (b.dev h) ((b.blocknr h).toNat * blockSize + j)
    rw [T.dev, T.blocknr, Function.update_of_ne hne, Function.update_of_ne hne]
    exact hc j hj
  refine ⟨B.mounted, ?_, ?_, ?_, ?_⟩
  · intro h hh hraw hor
    have hne : h ≠ bh := by
      rintro rfl
      dsimp only at hor
      rw [T.uptodate, T.dirt, Function.update_self, Function.update_self] at hor
      rcases hor with h1 | h1 <;> cases h1
    dsimp only at hor hraw
    rw [T.uptodate, T.dirt, Function.update_of_ne hne, Function.update_of_ne hne] at hor
    rw [T.dev, Function.update_of_ne hne] at hraw
    exact hcur h hne (B.cached h hh hraw hor)
  · intro i r hr hraw
    have hne := K.unlocked hl hr
    show b.dirt r.bh = false
    rw [T.dirt, Function.update_of_ne hne]
    exact B.queued i r hr hraw
  · intro i r hr hraw hw
    exact hcur r.bh (K.unlocked hl hr) (B.writing i r hr hraw hw)
  · intro d k hraw hun
    refine B.saved d k hraw ?_
    rintro ⟨h, hh, hd, hb, hor⟩
    have hne : h ≠ bh := by
      rintro rfl
      rcases hor with h1 | ⟨i, r, hr, hbh, -⟩
      · rw [hc] at h1
        cases h1
      · exact K.unlocked hl hr hbh
    refine hun ⟨h, hh, ?_, ?_, ?_⟩
    · show b.dev h = d
      rw [T.dev, Function.update_of_ne hne]
      exact hd
    · show b.blocknr h = k
      rw [T.blocknr, Function.update_of_ne hne]
      exact hb
    · show b.dirt h = true ∨ _
      rw [T.dirt, Function.update_of_ne hne]
      exact hor

/-- What `block_write` stores at the byte of offset `j` of a block. -/
theorem copyIn_last (s : Cache) (bh : Nat) (dev : UInt16) (bytes : List UInt8) {block : UInt32}
    {offset : Nat} {pos : UInt32} (hpos : pos.toNat = block.toNat * blockSize + offset) (j : Nat) :
    (s.copyIn bh dev pos offset bytes).last dev (block.toNat * blockSize + j) =
      (if offset ≤ j then bytes[j - offset]? else none).getD
        (s.last dev (block.toNat * blockSize + j)) := by
  show Function.update s.last dev _ dev _ = _
  rw [Function.update_self, hpos]
  have hsub : block.toNat * blockSize + j - (block.toNat * blockSize + offset) = j - offset := by
    omega
  rw [hsub]
  by_cases h : offset ≤ j
  · rw [if_pos h, if_pos (by omega)]
  · rw [if_neg h, if_neg (by omega)]

/-- Bytes of other blocks are not touched. -/
theorem copyIn_last_of_ne (s : Cache) (bh : Nat) {dev : UInt16} {block : UInt32} {offset : Nat}
    {pos : UInt32} {bytes : List UInt8} (hpos : pos.toNat = block.toNat * blockSize + offset)
    (hroom : offset + bytes.length ≤ blockSize) {d : UInt16} {b : UInt32}
    (hne : ¬ (d = dev ∧ b = block)) {j : Nat} (hj : j < blockSize) :
    (s.copyIn bh dev pos offset bytes).last d (b.toNat * blockSize + j) =
      s.last d (b.toNat * blockSize + j) := by
  show Function.update s.last dev _ d _ = _
  by_cases hd : d = dev
  · subst hd
    have hb : b.toNat ≠ block.toNat := fun he => hne ⟨rfl, UInt32.toNat_inj.mp he⟩
    rw [Function.update_self, hpos]
    unfold blockSize at *
    split
    · next hle =>
      rw [List.getElem?_eq_none (by omega)]
      rfl
    · rfl
  · rw [Function.update_of_ne hd]

/-- Bytes are written to a buffer that is not locked: they are the last ones,
and the buffer is dirty. -/
theorem Bytes.copyIn (B : Bytes N m s) (K : Locks N G s) (hsh : Shape N s) {bh : Nat}
    {dev : UInt16} {block : UInt32} {offset : Nat} {pos : UInt32} {bytes : List UInt8}
    (hbh : bh < N) (hd : s.buf.dev bh = dev) (hb : s.buf.blocknr bh = block)
    (hl : s.buf.lock bh = false) (hready : s.buf.uptodate bh = true ∨ bytes.length = blockSize)
    (hroom : offset + bytes.length ≤ blockSize)
    (hpos : pos.toNat = block.toNat * blockSize + offset) :
    Bytes N m (s.copyIn bh dev pos offset bytes) := by
  -- another buffer is of another block, if it is of a raw device
  have hcur : ∀ h, h ≠ bh → h < N → s.buf.dev h ≠ 0 → Current s h →
      Current (s.copyIn bh dev pos offset bytes) h := by
    intro h hne hh h0 hc j hj
    have hkey : ¬ (s.buf.dev h = dev ∧ s.buf.blocknr h = block) := by
      rintro ⟨h1, h2⟩
      exact hne (hsh.unique hh hbh h0 (h1.trans hd.symm) (h2.trans hb.symm))
    have hdata : (s.copyIn bh dev pos offset bytes).data h = s.data h :=
      Function.update_of_ne hne ..
    have hlast := copyIn_last_of_ne s bh hpos hroom hkey hj
    rw [hdata, hc j hj]
    exact hlast.symm
  refine ⟨B.mounted, ?_, ?_, ?_, ?_⟩
  · intro h hh hraw hor
    by_cases he : h = bh
    · subst he
      intro j hj
      have hdata : (s.copyIn h dev pos offset bytes).data h j =
          (if offset ≤ j then bytes[j - offset]? else none).getD (s.data h j) := by
        show Function.update s.data h _ h j = _
        rw [Function.update_self]
      have hlast := copyIn_last s h dev bytes hpos j
      show _ = (s.copyIn h dev pos offset bytes).last (s.buf.dev h)
        ((s.buf.blocknr h).toNat * blockSize + j)
      rw [hdata, hd, hb, hlast]
      rcases hready with hu | hlen
      · have hc := B.cached h hh hraw (Or.inl hu) j hj
        rw [hd, hb] at hc
        rw [hc]
      · have h0 : offset = 0 := by omega
        subst h0
        rw [if_pos (Nat.zero_le j), Nat.sub_zero, List.getElem?_eq_getElem (by omega)]
        rfl
    · refine hcur h he hh hraw.1 (B.cached h hh hraw ?_)
      refine hor.imp_right fun h1 => ?_
      have h2 : Function.update s.buf.dirt bh true h = true := h1
      rw [Function.update_of_ne he] at h2
      exact h2
  · intro i r hr hraw
    have hne := K.unlocked hl hr
    show Function.update s.buf.dirt bh true r.bh = false
    rw [Function.update_of_ne hne]
    exact B.queued i r hr hraw
  · intro i r hr hraw hw
    obtain ⟨hlt, -, hdr, -⟩ := K.pending i r hr
    exact hcur r.bh (K.unlocked hl hr) hlt (by rw [hdr]; exact hraw.1) (B.writing i r hr hraw hw)
  · intro d b' hraw hun j hj
    have hkey : ¬ (d = dev ∧ b' = block) := by
      rintro ⟨rfl, rfl⟩
      exact hun ⟨bh, hbh, hd, hb, Or.inl (Function.update_self ..)⟩
    show s.disk d b' j = _
    rw [copyIn_last_of_ne s bh hpos hroom hkey hj]
    refine B.saved d b' hraw ?_ j hj
    rintro ⟨h, hh, hd', hb', hor⟩
    exact hun ⟨h, hh, hd', hb', hor.imp_left fun h1 => update_true h1 bh⟩

/-- An inode is written to a buffer of a mounted device. -/
theorem Bytes.putInode (B : Bytes N m s) {bh i v : Nat} (hraw : ¬ Raw m (s.buf.dev bh))
    (K : Locks N G s) : Bytes N m (s.putInode bh i v) := by
  have hcur : ∀ h, h ≠ bh → Current s h → Current (s.putInode bh i v) h := by
    intro h hne hc j hj
    have hdata : (s.putInode bh i v).data h = s.data h := Function.update_of_ne hne ..
    rw [hdata]
    exact hc j hj
  have hdirt : ∀ h, h ≠ bh → (s.putInode bh i v).buf.dirt h = s.buf.dirt h := fun h hne =>
    Function.update_of_ne hne ..
  refine ⟨B.mounted, ?_, ?_, ?_, ?_⟩
  · intro h hh hr hor
    have hne : h ≠ bh := by
      rintro rfl
      exact hraw hr
    rw [hdirt h hne] at hor
    exact hcur h hne (B.cached h hh hr hor)
  · intro j r hr hr'
    have hne : r.bh ≠ bh := by
      rintro rfl
      exact hraw ((K.pending j r hr).2.2.1 ▸ hr')
    rw [hdirt r.bh hne]
    exact B.queued j r hr hr'
  · intro j r hr hr' hw
    have hne : r.bh ≠ bh := by
      rintro rfl
      exact hraw ((K.pending j r hr).2.2.1 ▸ hr')
    exact hcur r.bh hne (B.writing j r hr hr' hw)
  · intro d b hr hun
    refine B.saved d b hr ?_
    rintro ⟨h, hh, hd', hb', hor⟩
    exact hun ⟨h, hh, hd', hb', hor.imp_left fun h1 => update_true h1 bh⟩

/-! ## The payload -/

/-- What the runs of a device keep. -/
def device (N : Nat) (m : UInt16 → Bool) : Payload N False where
  inv := DeviceInv N m
  allow := deviceAllow
  ready bh s := s.buf.uptodate bh = true ∧ s.buf.lock bh = false
  queued _ _ _ := True
  copied bh dev _ offset pos chars s := Raw m dev → ∀ i, i < chars →
    s.data bh (offset + i) = s.last dev (pos.toNat + i)
  rest g := g.refs = [] ∧ g.lock = none
  invalidates := False
  overwrites := True
  core dev := m dev = true
  reads _ _ := True
  driver _ := True
  inv_core h hm := by rwa [← h.bytes.mounted]
  core_reads _ := trivial
  inv_driver _ _ _ _ := trivial
  env := by
    rintro G s s' hsh I ⟨i, r, u, bytes, -, hr, hu, rfl⟩
    obtain rfl : u = true := by
      cases u with
      | true => rfl
      | false => exact (hu rfl).elim
    refine ⟨I.refs.congr (fun _ => rfl) (fun _ => rfl) (fun _ _ => rfl) ?_ ?_,
      I.locks.endRequest hr true bytes, I.bytes.endRequest I.locks hsh hr bytes⟩
    · unfold Cache.endRequest
      cases r.write <;> rfl
    · exact sameKeys_of_eq (queues_endRequest s i r true bytes)
  ready_env := by
    rintro G s s' bh I ⟨hup, hl⟩ he
    refine ⟨?_, completes_lock he hl⟩
    obtain ⟨i, r, u, bytes, -, hr, -, rfl⟩ := he
    have hupd : (s.endRequest i r u bytes).buf.uptodate =
        Function.update s.buf.uptodate r.bh u := by
      unfold Cache.endRequest
      cases r.write <;> rfl
    rw [hupd, Function.update_of_ne (Ne.symm (I.locks.unlocked hl hr))]
    exact hup
  ready_intro _ hl hup := ⟨hup, hl⟩
  acquire _ I hg hL hr hd hb :=
    ⟨I.refs.acquire hg hL hr hd hb, I.locks.refs hg rfl fun _ h => ⟨h, id, id, rfl, rfl⟩,
      I.bytes.mounted, I.bytes.cached, I.bytes.queued, I.bytes.writing, I.bytes.saved⟩
  release I hg :=
    ⟨I.refs.release hg, I.locks.refs hg rfl fun _ h => ⟨h, id, id, rfl, rfl⟩,
      I.bytes.mounted, I.bytes.cached, I.bytes.queued, I.bytes.writing, I.bytes.saved⟩
  lock I hg hbh hl :=
    ⟨I.refs.relock hg rfl ⟨rfl, rfl⟩, I.locks.lock hbh hl,
      I.bytes.mounted, I.bytes.cached, I.bytes.queued, I.bytes.writing, I.bytes.saved⟩
  useful I hg hw _ := ⟨I.refs.relock hg rfl ⟨rfl, rfl⟩, I.locks.use hg hw, I.bytes⟩
  unlock I hg :=
    ⟨I.refs.relock hg rfl ⟨rfl, rfl⟩, I.locks.unlock hg,
      I.bytes.mounted, I.bytes.cached, I.bytes.queued, I.bytes.writing, I.bytes.saved⟩
  promise _ _ _ := trivial
  request I hg _ hi ha :=
    ⟨I.refs.relock hg rfl ⟨rfl, rfl⟩, I.locks.queue hg, I.bytes.queue I.locks hg hi ha⟩
  takeover _ I hg hL hbh h0 hl hc _ T _ :=
    ⟨I.refs.takeover hg hL hbh h0 T, I.locks.takeover hg hl T, I.bytes.takeover I.locks hl hc T⟩
  copyIn _ hsh I hg hbh hl hready hroom ha := by
    obtain ⟨-, hd, hb⟩ := I.refs.keys _ _ (by rw [hg]; exact List.mem_cons_self ..)
    refine ⟨I.refs.congr (fun _ => rfl) (fun _ => rfl) (fun _ _ => rfl) rfl ⟨rfl, rfl⟩,
      I.locks.keep (fun _ => rfl) rfl ?_,
      I.bytes.copyIn I.locks hsh hbh hd hb hl (hready.imp_left And.left) hroom ha⟩
    intro h hlock
    exact ⟨hlock, fun h1 => update_true h1 _, id, rfl, rfl⟩
  copyOut _ I hg hbh hready hroom ha hraw i hi := by
    obtain ⟨-, hd, hb⟩ := I.refs.keys _ _ (by rw [hg]; exact List.mem_cons_self ..)
    dsimp only at hd hb
    have hc := I.bytes.cached _ hbh (by rw [hd]; exact hraw) (Or.inl hready.1) (_ + i)
      (Nat.lt_of_lt_of_le (Nat.add_lt_add_left hi _) hroom)
    rw [hd, hb] at hc
    rw [hc]
    have hpos : UInt32.toNat _ = _ := ha
    rw [hpos, Nat.add_assoc]
  putInode I hg hbh hcore _ := by
    obtain ⟨-, hd, -⟩ := I.refs.keys _ _ (by rw [hg]; exact List.mem_cons_self ..)
    refine ⟨I.refs.congr (fun _ => rfl) (fun _ => rfl) (fun _ _ => rfl) rfl ⟨rfl, rfl⟩,
      I.locks.keep (fun _ => rfl) rfl ?_, I.bytes.putInode ?_ I.locks⟩
    · intro h hlock
      exact ⟨hlock, fun h1 => update_true h1 _, id, rfl, rfl⟩
    · rintro ⟨-, h2⟩
      dsimp only at hd
      rw [hd, hcore] at h2
      cases h2
  invalidate h _ := h.elim

/-! ## Runs -/

/-- Another task looks at a block, which may evict a buffer. -/
def visit (dev : UInt16) (block : UInt32) : M Unit := do
  match ← getblk dev block with
  | some bh => brelse bh
  | none => pure ()

/-- Another task reads a block. -/
def peek (dev : UInt16) (block : UInt32) : M Unit := do
  match ← bread dev block with
  | some bh => brelse bh
  | none => pure ()

section Visits

variable {fails : Prop} {P : Payload N fails} {ops : Nat → Prog Cache Tag Proc Ret → Prop} {n : Nat}
  (ih : ∀ p L, Holds (contract P ops) n (Code.call p) (Pre P p L) (Post N p L))

include ih

/-- A buffer that was got is released. -/
theorem drop_spec (dev : UInt16) (block : UInt32) (r : Ret) :
    Holds (contract P ops) n (match r with | some bh => brelse bh | none => pure () : M Unit)
      (fun g s => (∀ h, r = some h → Got N dev block [] h g s) ∧ (r = none → g = holding []))
      (fun _ g _ => g = holding []) := by
  cases r with
  | none => exact holds_pure fun _ _ _ _ h => h.2 rfl
  | some bh => exact (brelse_spec ih ⟨bh, dev, block⟩ []).pre fun _ _ h => (h.1 bh rfl).1

theorem visit_spec (dev : UInt16) (block : UInt32) :
    Holds (contract P ops) n (visit dev block) (fun g _ => g = holding [])
      (fun _ g _ => g = holding []) := by
  refine holds_bind (getblk_spec ih dev block (Nat.zero_le 1)) fun r => ?_
  refine (drop_spec ih dev block r).pre ?_
  rintro g s ⟨bh, rfl, hg⟩
  refine ⟨?_, fun h => by cases h⟩
  intro h hh
  cases hh
  exact hg

theorem peek_spec (dev : UInt16) (block : UInt32) (hreads : P.reads dev block) :
    Holds (contract P ops) n (peek dev block) (fun g _ => g = holding [])
      (fun _ g _ => g = holding []) := by
  refine holds_bind (bread_spec ih dev block (Nat.zero_le 1) hreads) fun r => ?_
  exact (drop_spec ih dev block r).pre fun _ _ h => ⟨fun bh hbh => (h.1 bh hbh).1, h.2⟩

end Visits

/-- What tasks do while the device is used. -/
inductive DeviceOp : Prog Cache Tag Proc Ret → Prop
  | blockRead (dev : UInt16) (pos : UInt32) (count : Nat) :
      DeviceOp (blockRead dev pos count).toProg
  | blockWrite (dev : UInt16) (pos : UInt32) (buf : List UInt8) :
      DeviceOp (blockWrite dev pos buf).toProg
  | visit (dev : UInt16) (block : UInt32) : DeviceOp (visit dev block).toProg
  | peek (dev : UInt16) (block : UInt32) : DeviceOp (peek dev block).toProg
  | syncDev (dev : UInt16) : DeviceOp (syncDev dev).toProg
  | sysSync : DeviceOp sysSync.toProg

def DeviceOps (t : Nat) (p : Prog Cache Tag Proc Ret) : Prop := t < nrTasks ∧ DeviceOp p

/-- Tasks that use devices all of whose requests succeed. -/
def deviceKernel : Kernel Cache Tag Proc Ret := kernel False DeviceOps

/-- Start-up: nothing has been written yet. -/
def Cache.fresh (n : Nat) (s : Cache) : Cache :=
  { s.boot n with
    last := fun dev p => s.disk dev (UInt32.ofNat (p / blockSize)) (p % blockSize) }

theorem deviceInv_fresh (n : Nat) (s : Cache) :
    DeviceInv n s.mounted (fun _ => ⟨none, [], false⟩) (s.fresh n) := by
  have hheads := (initHeads n { s.buf with nrBuffers := n }).2
  have hheld : ∀ h, held (fun _ => ⟨none, [], false⟩) h = 0 := by
    intro h
    unfold held
    exact Finset.sum_eq_zero fun _ _ => rfl
  refine ⟨⟨?_, ?_, ?_, ?_, ?_⟩, ⟨?_, ?_, ?_, ?_, ?_, ?_, ?_⟩, ⟨rfl, ?_, ?_, ?_, ?_⟩⟩
  · exact fun _ => Nat.zero_le 2
  · intro t h
    cases h
  · exact fun _ _ => ⟨rfl, rfl⟩
  · intro h hh
    rw [hheld]
    exact (hheads h hh).2.2.2.2.2.1
  · intro t r hr
    cases hr
  · intro t h x hl
    cases hl
  · intro t h x i r hl
    cases hl
  · intro t h hl
    cases hl
  · intro t h hl
    cases hl
  · intro t t' h x x' hl
    cases hl
  · intro i r hr
    cases hr
  · intro i j r r' hr
    cases hr
  · intro h hh hraw
    exact absurd (hheads h hh).1 hraw.1
  · intro i r hr
    cases hr
  · intro i r hr
    cases hr
  · intro dev block _ _ j hj
    show s.disk dev block j = s.disk dev (UInt32.ofNat ((block.toNat * blockSize + j) / blockSize))
      ((block.toNat * blockSize + j) % blockSize)
    unfold blockSize at *
    have hdiv : (block.toNat * 1024 + j) / 1024 = block.toNat := by omega
    have hmod : (block.toNat * 1024 + j) % 1024 = j := by omega
    rw [hdiv, hmod, UInt32.ofNat_toNat]

/-- A task begins: it is alive and holds nothing. -/
theorem References.begin (R : References N G s) (ht : t < nrTasks) (hrefs : (G t).refs = []) :
    References N (Function.update G t (holding [])) s := by
  have hsame : ∀ t', (Function.update G t (holding []) t').refs = (G t').refs := by
    intro t'
    by_cases h : t' = t
    · subst h
      rw [Function.update_self, hrefs]
    · rw [Function.update_of_ne h]
  have hheld : ∀ h, held (Function.update G t (holding [])) h = held G h := by
    intro h
    unfold held
    exact Finset.sum_congr rfl fun x _ => by rw [hsame x]
  refine ⟨?_, ?_, ?_, ?_, ?_⟩
  · intro t'
    rw [hsame t']
    exact R.few t'
  · intro t' hl
    by_cases h : t' = t
    · subst h
      exact ht
    · rw [Function.update_of_ne h] at hl
      exact R.live t' hl
  · intro t' hl
    by_cases h : t' = t
    · subst h
      rw [Function.update_self] at hl
      cases hl
    · rw [Function.update_of_ne h] at hl ⊢
      exact R.dead t' hl
  · intro h hh
    rw [hheld]
    exact R.count h hh
  · intro t' r hr
    rw [hsame t'] at hr
    exact R.keys t' r hr

theorem Locks.begin (K : Locks N G s) (hlock : (G t).lock = none) :
    Locks N (Function.update G t (holding [])) s := by
  refine K.keep ?_ rfl fun _ h => ⟨h, id, id, rfl, rfl⟩
  intro t'
  rw [lock_update]
  split
  · next he => rw [he, hlock]
  · rfl

theorem DeviceInv.begin (I : DeviceInv N m G s) (ht : t < nrTasks) (hrefs : (G t).refs = [])
    (hlock : (G t).lock = none) : DeviceInv N m (Function.update G t (holding [])) s :=
  ⟨I.refs.begin ht hrefs, I.locks.begin hlock, I.bytes⟩

/-- Every call of the device's users keeps its bytes. -/
theorem starts_device {n : Nat} {m : UInt16 → Bool} :
    Starts (contract (device n m) DeviceOps) := by
  have hcall : ∀ k p L, Holds (contract (device n m) DeviceOps) k (Code.call p)
      (Pre (device n m) p L) (Post n p L) := fun k p L => call_spec k p L
  have hnil : ([] : List Ref).length ≤ 1 := Nat.zero_le 1
  have hmod : ∀ pos : UInt32, pos.toNat % blockSize ≤ blockSize := fun pos =>
    Nat.le_of_lt (Nat.mod_lt _ (by decide))
  have hstart : ∀ {t : Nat} {α : Type} {x : M α} {G : Nat → Hold} {s : Cache}, t < nrTasks →
      (∀ k, Holds (contract (device n m) DeviceOps) k x (fun g _ => g = holding [])
        (fun _ g _ => g = holding [])) →
      (contract (device n m) DeviceOps).inv G s → (device n m).rest (G t) → Begins (contract (device n m) DeviceOps) t G s x.toProg := by
    intro t α x G s ht hx hi hrest
    refine Holds.begins hx ⟨hi.1, hi.2.begin ht hrest.1 hrest.2⟩ (fun _ => rfl) ?_
    intro a G'' t' s'' _ hg''
    show (G'' t').refs = [] ∧ (G'' t').lock = none
    rw [hg'']
    exact ⟨rfl, rfl⟩
  rintro t p ⟨ht, hp⟩ G s hi hrest
  cases hp with
  | blockRead dev pos count =>
    exact hstart ht (fun k => (hcall k (.blockRead dev _ _ pos count 0) []).pre
      fun _ _ h => ⟨h, rfl, hmod pos, fun _ => trivial⟩) hi hrest
  | blockWrite dev pos buf =>
    exact hstart ht (fun k => (hcall k (.blockWrite dev _ _ pos buf 0) []).pre
      fun _ _ h => ⟨h, rfl, hmod pos, trivial, fun _ => trivial⟩) hi hrest
  | visit dev block => exact hstart ht (fun k => visit_spec (hcall k) dev block) hi hrest
  | peek dev block => exact hstart ht (fun k => peek_spec (hcall k) dev block trivial) hi hrest
  | syncDev dev => exact hstart ht (fun k => syncDev_spec (hcall k) dev hnil) hi hrest
  | sysSync => exact hstart ht (fun k => sysSync_spec hnil) hi hrest

/-- **A block device read returns the last bytes written**, in every run in
which no read is queued for a dirty buffer and every copy is at the position of
its block: the bytes `block_read` is about to copy to the user are those last
written at their positions, or the ones the device held. -/
theorem block_read_returns_last_written {n : Nat} (hn : 0 < n) (s : Cache)
    {c : Config Cache Tag Proc Ret}
    (h : deviceKernel.Reach deviceAllow (Config.idle (s.fresh n)) c) {t bh : Nat} {dev : UInt16}
    {block : UInt32} {offset : Nat} {pos : UInt32} {chars : Nat} (hr : c.running = some t)
    (ht : tagOf (c.tasks t) = some (.copyOut bh dev block offset pos chars))
    (hpos : deviceAllow (.copyOut bh dev block offset pos chars) c.shared)
    (hraw : Raw s.mounted dev) :
    ∀ i, i < chars → c.shared.data bh (offset + i) = c.shared.last dev (pos.toNat + i) := by
  have hshape : Shape n (s.fresh n) := (shape_boot hn s).of_eq rfl
  obtain ⟨G, hG⟩ := reach_idle starts_device (C := contract (device n s.mounted) DeviceOps)
    ⟨hshape, deviceInv_fresh n s⟩ (fun _ => ⟨rfl, rfl⟩) h
  cases hp : c.tasks t with
  | act tag u next =>
    rw [hp] at ht
    cases ht
    have hcheck := hG.check hr hp (by rintro x hx; cases hx; exact hpos)
    exact hcheck.2 hraw
  | _ =>
    rw [hp] at ht
    cases ht

/-- Interrupts of a script: the request in a slot succeeds. -/
def succeed (i : Nat) (s : Cache) : Option Cache :=
  if i < nrRequest then (s.request i).map fun r => s.endRequest i r true fun _ => 0 else none

theorem succeed_env (i : Nat) (s s' : Cache) (h : succeed i s = some s') :
    deviceKernel.env s s' := by
  unfold succeed at h
  split at h
  · next hi =>
    obtain ⟨r, hr, rfl⟩ := Option.map_eq_some_iff.mp h
    exact ⟨i, r, true, _, hi, hr, fun h => (by cases h), rfl⟩
  · cases h

/-- `deviceAllow`, as a test. -/
def deviceOk : Tag → Cache → Bool
  | .request write bh, s => write || !s.buf.dirt bh
  | .copyIn _ _ block offset pos _, _ | .copyOut _ _ block offset pos _, _ =>
    pos.toNat = block.toNat * blockSize + offset
  | .takeover _ _ _, _ => true

theorem deviceOk_allow (x : Tag) (s : Cache) (h : deviceOk x s = true) : deviceAllow x s := by
  cases x with
  | takeover bh dev block => trivial
  | request write bh =>
    intro hw
    subst hw
    simpa [deviceOk] using h
  | copyIn bh dev block offset pos chars =>
    have hpos : pos.toNat = block.toNat * blockSize + offset := of_decide_eq_true h
    exact hpos
  | copyOut bh dev block offset pos chars =>
    have hpos : pos.toNat = block.toNat * blockSize + offset := of_decide_eq_true h
    exact hpos

/-- Ten bytes are written at position 5 of device 0x301, which reads the block
first, and one of them is read back. -/
def partOfBlockThenRead : List (Move Cache Tag Proc Ret Nat) :=
  [.start 0 (blockWrite 0x301 5 (List.replicate 10 1)).toProg, .wake 0, .run 400, .rest, .irq 31,
    .wake 0, .run 400, .rest, .start 1 (blockRead 0x301 7 1).toProg, .wake 1, .run 47]

theorem block_read_returns_last_written_ten_bytes : ∃ c,
    deviceKernel.Reach deviceAllow (Config.idle (zeroCache.fresh 3)) c ∧
      tagOf (c.tasks 1) = some (.copyOut 0 0x301 0 7 7 1) ∧ c.shared.data 0 7 = 1 ∧
      c.shared.last 0x301 7 = 1 := by
  have hplay : ((deviceKernel.play deviceOk succeed partOfBlockThenRead
      (Config.idle (zeroCache.fresh 3))).map
      fun c => (c.running, tagOf (c.tasks 1), c.shared.last 0x301 7)) =
        some (some 1, some (.copyOut 0 0x301 0 7 7 1), 1) := by
    decide +kernel
  have hops : ∀ q ∈ programs partOfBlockThenRead, deviceKernel.ops q.1 q.2 := by
    rintro q (_ | ⟨_, _ | ⟨_, ⟨⟩⟩⟩)
    · exact ⟨by decide, .blockWrite _ _ _⟩
    · exact ⟨by decide, .blockRead _ _ _⟩
  obtain ⟨c, hreach, hend⟩ := exists_reach deviceOk_allow succeed_env hops hplay
  simp only [Prod.mk.injEq] at hend
  obtain ⟨hr, ht, hlast⟩ := hend
  have hdata := block_read_returns_last_written (by decide) zeroCache hreach hr ht rfl
    ⟨by decide, rfl⟩ 0 (by decide)
  exact ⟨c, hreach, ht, hdata.trans hlast, hlast⟩

/-- A block of ones is written at position 0 of device 0x301 and one byte is
read back before the buffer is. -/
def wholeBlockThenRead : List (Move Cache Tag Proc Ret Nat) :=
  [.start 0 (blockWrite 0x301 0 (List.replicate 1024 1)).toProg, .wake 0, .run 200, .rest,
    .start 1 (blockRead 0x301 0 1).toProg, .wake 1, .run 400, .rest, .irq 31, .wake 1, .run 3]

/-- **A whole block that is read before it is written back is lost**: the byte
read is the old one. -/
theorem block_read_loses_write :
    ¬ ∀ (n : Nat) (s : Cache) (c : Config Cache Tag Proc Ret), 0 < n →
      deviceKernel.Reach (fun _ _ => True) (Config.idle (s.fresh n)) c →
      ∀ t bh dev block offset pos chars, c.running = some t →
        tagOf (c.tasks t) = some (.copyOut bh dev block offset pos chars) →
        Raw s.mounted dev → ∀ i, i < chars →
          c.shared.data bh (offset + i) = c.shared.last dev (pos.toNat + i) := by
  intro hall
  have hplay : ((deviceKernel.play (fun _ _ => true) succeed wholeBlockThenRead
      (Config.idle (zeroCache.fresh 3))).map fun c =>
        (c.running, tagOf (c.tasks 1), c.shared.data 0 0, c.shared.last 0x301 0)) =
        some (some 1, some (.copyOut 0 0x301 0 0 0 1), 0, 1) := by
    decide +kernel
  have hops : ∀ q ∈ programs wholeBlockThenRead, deviceKernel.ops q.1 q.2 := by
    rintro q (_ | ⟨_, _ | ⟨_, ⟨⟩⟩⟩)
    · exact ⟨by decide, .blockWrite _ _ _⟩
    · exact ⟨by decide, .blockRead _ _ _⟩
  obtain ⟨c, hreach, hend⟩ := exists_reach (fun _ _ _ => trivial) succeed_env hops hplay
  simp only [Prod.mk.injEq] at hend
  obtain ⟨hr, ht, hdata, hlast⟩ := hend
  have heq := hall 3 zeroCache c (by decide) hreach 1 0 0x301 0 0 0 1 hr ht ⟨by decide, rfl⟩ 0
    (by decide)
  have hcontra : (0 : UInt8) = 1 := hdata.symm.trans (heq.trans hlast)
  exact absurd hcontra (by decide)

end Linux011.Fs
