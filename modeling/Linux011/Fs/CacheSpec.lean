import Linux011.Fs.Getblk

/-!
# Buffer cache — specifications of the code that sleeps

What each function of the cache guarantees, whatever the other tasks do while
it sleeps. A task's ghost (`Hold`) says which buffer it has locked without a
request and which references it holds.

The shape of the queues is part of every contract. What else a user of the
cache wants to keep is a parameter (`Payload`): an invariant of the ghosts and
the state, with what each action of the code has to preserve.

* `contract` — the contract of a payload: only `takeover` changes which block a
  head carries, and only of a head that is free, unlocked and clean, for a
  block that is not cached;
* `call_spec` — every procedure keeps it.
-/

namespace Linux011.Fs

open Linux011.Lib
open Linux011.Lib.Kernel

/-- A reference to a buffer, with the block it was taken for. -/
structure Ref where
  bh    : Nat
  dev   : UInt16
  block : UInt32

/-- What a task holds: `lock` is the buffer it has locked and not yet queued a
request for, together with the command once it is known to be useful. A task
that has not begun is not `live`. -/
structure Hold where
  lock : Option (Nat × Option Bool)
  refs : List Ref
  live : Bool

/-- A task that has no buffer locked. -/
abbrev holding (L : List Ref) : Hold := ⟨none, L, true⟩

/-- A task that has locked `bh`. -/
abbrev locking (bh : Nat) (cmd : Option Bool) (L : List Ref) : Hold :=
  ⟨some (bh, cmd), L, true⟩

/-- The heads without what the queues do not depend on. -/
def Buffers.queues (b : Buffers) : Buffers :=
  { b with uptodate := fun _ => false, dirt := fun _ => false, count := fun _ => 0,
           lock := fun _ => false }

/-- There are `N` heads, and the queues have their shape. -/
structure Shape (N : Nat) (s : Cache) : Prop where
  nr     : s.buf.nrBuffers = N
  queues : ∃ order chain, Queues s.buf order chain

/-- No head is reassigned. -/
def SameKeys (s s' : Cache) : Prop :=
  s'.buf.dev = s.buf.dev ∧ s'.buf.blocknr = s.buf.blocknr

theorem Shape.of_eq {N : Nat} {s s' : Cache} (h : Shape N s)
    (he : s'.buf.queues = s.buf.queues) : Shape N s' := by
  obtain ⟨order, chain, Q⟩ := h.queues
  have hq : Queues s.buf.queues order chain :=
    ⟨Q.nodup, Q.mem, Q.ring, Q.first, Q.chains, Q.nodups, Q.hashed, Q.free, Q.unique⟩
  rw [← he] at hq
  refine ⟨?_, order, chain, hq.nodup, hq.mem, hq.ring, hq.first, hq.chains, hq.nodups, hq.hashed,
    hq.free, hq.unique⟩
  have hn : s'.buf.queues.nrBuffers = s.buf.queues.nrBuffers := by rw [he]
  exact hn.trans h.nr

theorem sameKeys_of_eq {s s' : Cache} (he : s'.buf.queues = s.buf.queues) : SameKeys s s' := by
  have hd : s'.buf.queues.dev = s.buf.queues.dev := by rw [he]
  have hb : s'.buf.queues.blocknr = s.buf.queues.blocknr := by rw [he]
  exact ⟨hd, hb⟩

theorem queues_endRequest (s : Cache) (i : Nat) (r : Request) (u : Bool) (bytes : Nat → UInt8) :
    (s.endRequest i r u bytes).buf.queues = s.buf.queues := by
  unfold Cache.endRequest
  cases r.write <;> rfl

/-- What the end of a request leaves, and sets, but bytes. -/
structure Ended (s : Cache) (i : Nat) (r : Request) (u : Bool) (s' : Cache) : Prop where
  requestFn : s'.requestFn = s.requestFn
  mounted   : s'.mounted = s.mounted
  dirt      : s'.buf.dirt = s.buf.dirt
  lock      : s'.buf.lock = Function.update s.buf.lock r.bh false
  uptodate  : s'.buf.uptodate = Function.update s.buf.uptodate r.bh u
  request   : s'.request = Function.update s.request i none

theorem ended (s : Cache) (i : Nat) (r : Request) (u : Bool) (bytes : Nat → UInt8) :
    Ended s i r u (s.endRequest i r u bytes) := by
  unfold Cache.endRequest
  cases r.write <;> exact ⟨rfl, rfl, rfl, rfl, rfl, rfl⟩

/-- A request that is left was there before, and is another one. -/
theorem Ended.left {s s' : Cache} {i j : Nat} {r r' : Request} {u : Bool} (E : Ended s i r u s')
    (h : s'.request j = some r') : s.request j = some r' ∧ j ≠ i := by
  rw [E.request, Function.update_apply] at h
  split at h
  · cases h
  · next hne => exact ⟨h, hne⟩

theorem queues_completes {fails : Prop} {s s' : Cache} (h : Completes fails s s') :
    s'.buf.queues = s.buf.queues := by
  obtain ⟨i, r, u, bytes, -, -, -, rfl⟩ := h
  exact queues_endRequest s i r u bytes

theorem completes_count {fails : Prop} {s s' : Cache} (h : Completes fails s s') :
    s'.buf.count = s.buf.count ∧ s'.buf.dirt = s.buf.dirt := by
  obtain ⟨i, r, u, bytes, -, -, -, rfl⟩ := h
  unfold Cache.endRequest
  cases r.write <;> exact ⟨rfl, rfl⟩

/-- An interrupt only unlocks. -/
theorem completes_lock {fails : Prop} {s s' : Cache} (h : Completes fails s s') {bh : Nat}
    (hl : s.buf.lock bh = false) : s'.buf.lock bh = false := by
  obtain ⟨i, r, u, bytes, -, -, -, rfl⟩ := h
  have hlock : (s.endRequest i r u bytes).buf.lock = Function.update s.buf.lock r.bh false := by
    unfold Cache.endRequest
    cases r.write <;> rfl
  rw [hlock, Function.update_apply]
  split
  · rfl
  · exact hl

/-- A free slot stays free. -/
theorem completes_request {fails : Prop} {s s' : Cache} (h : Completes fails s s') {i : Nat}
    (hr : s.request i = none) : s'.request i = none := by
  obtain ⟨j, r, u, bytes, -, -, -, rfl⟩ := h
  have hreq : (s.endRequest j r u bytes).request = Function.update s.request j none := by
    unfold Cache.endRequest
    cases r.write <;> rfl
  rw [hreq, Function.update_apply]
  split
  · rfl
  · exact hr

/-- What `ll_rw_block` looks at: the device has a driver. -/
def HasDriver (fn : Nat → Bool) (dev : UInt16) : Prop :=
  (dev >>> 8).toNat < nrBlkDev ∧ fn (dev >>> 8).toNat = true

/-- What is to be kept beside the queues. `ready bh` says that the buffer holds
the bytes of its block, `queued` what is promised of requests, `copied` of bytes
copied to the user. Whether buffers may be invalidated or written to by
`block_write` is up to `invalidates` and `overwrites`; `core` are the devices
that may have inodes in core, `reads` the blocks that may be read, and `driver`
is what is known of a device that has one. -/
structure Payload (N : Nat) (fails : Prop) where
  inv         : (Nat → Hold) → Cache → Prop
  allow       : Tag → Cache → Prop
  ready       : Nat → Cache → Prop
  queued      : (write : Bool) → (bh : Nat) → Cache → Prop
  copied      : (bh : Nat) → (dev : UInt16) → (block : UInt32) → (offset : Nat) →
    (pos : UInt32) → (chars : Nat) → Cache → Prop
  rest        : Hold → Prop
  invalidates : Prop
  overwrites  : Prop
  core        : UInt16 → Prop
  reads       : UInt16 → UInt32 → Prop
  driver      : UInt16 → Prop
  inv_core : ∀ {G s dev}, inv G s → s.mounted dev = true → core dev
  core_reads : ∀ {dev block}, core dev → reads dev block
  inv_driver : ∀ {G s t L} {r : Ref}, inv G s → G t = holding L → r ∈ L →
    HasDriver s.requestFn (s.buf.dev r.bh) → driver r.dev
  env : ∀ {G s s'}, Shape N s → inv G s → Completes fails s s' → inv G s'
  ready_env : ∀ {G s s' bh}, inv G s → ready bh s → Completes fails s s' → ready bh s'
  ready_intro : ∀ {G s bh}, inv G s → s.buf.lock bh = false → s.buf.uptodate bh = true →
    ready bh s
  acquire : ∀ {G s t L} {r : Ref}, Shape N s → inv G s → G t = holding L → L.length ≤ 1 →
    r.bh < N → s.buf.dev r.bh = r.dev → s.buf.blocknr r.bh = r.block →
    inv (Function.update G t (holding (r :: L))) (s.incCount r.bh)
  release : ∀ {G s t L} {r : Ref}, inv G s → G t = holding (r :: L) →
    inv (Function.update G t (holding L)) (s.decCount r.bh)
  lock : ∀ {G s t L bh}, inv G s → G t = holding L → bh < N → s.buf.lock bh = false →
    inv (Function.update G t (locking bh none L)) (s.setLock bh true)
  useful : ∀ {G s t L bh w}, inv G s → G t = locking bh none L →
    (if w then s.buf.dirt bh = true else s.buf.uptodate bh = false) →
    (w = false → ∃ r ∈ L, r.bh = bh ∧ reads r.dev r.block ∧ driver r.dev) →
    inv (Function.update G t (locking bh (some w) L)) s
  unlock : ∀ {G s t L bh x}, inv G s → G t = locking bh x L →
    inv (Function.update G t (holding L)) (s.setLock bh false)
  promise : ∀ {G s t L bh w}, inv G s → G t = locking bh (some w) L → allow (.request w bh) s →
    queued w bh s
  request : ∀ {G s t L bh w i}, inv G s → G t = locking bh (some w) L → i < nrRequest →
    s.request i = none → allow (.request w bh) s →
    inv (Function.update G t (holding L)) (s.addRequest i w bh)
  takeover : ∀ {G s t L bh dev block} {b : Buffers}, Shape N s → inv G s → G t = holding L →
    L.length ≤ 1 → bh < N → s.buf.count bh = 0 → s.buf.lock bh = false →
    s.buf.dirt bh = false → findBuffer s.buf dev block = some none →
    TakenOver s.buf bh dev block b → allow (.takeover bh dev block) s →
    inv (Function.update G t (holding (⟨bh, dev, block⟩ :: L))) { s with buf := b }
  copyIn : ∀ {G s t L bh dev block offset pos} {bytes : List UInt8}, overwrites →
    Shape N s → inv G s →
    G t = holding (⟨bh, dev, block⟩ :: L) → bh < N → s.buf.lock bh = false →
    (ready bh s ∨ bytes.length = blockSize) → offset + bytes.length ≤ blockSize →
    allow (.copyIn bh dev block offset pos bytes.length) s →
    inv G (s.copyIn bh dev pos offset bytes)
  copyOut : ∀ {G s t L bh dev block offset pos chars}, Shape N s → inv G s →
    G t = holding (⟨bh, dev, block⟩ :: L) → bh < N → ready bh s → offset + chars ≤ blockSize →
    allow (.copyOut bh dev block offset pos chars) s → copied bh dev block offset pos chars s
  putInode : ∀ {G s t L bh dev block i v}, inv G s → G t = holding (⟨bh, dev, block⟩ :: L) →
    bh < N → core dev → ready bh s → inv G (s.putInode bh i v)
  invalidate : ∀ {G s bh}, invalidates → inv G s →
    inv G ((s.setDirt bh false).setUptodate bh false)

/-- The cache as a kernel. -/
def kernel (fails : Prop) (ops : Nat → Prog Cache Tag Proc Ret → Prop) :
    Kernel Cache Tag Proc Ret := ⟨body, Completes fails, ops⟩

/-- What is true when `getblk` takes head `bh` over for `(dev, block)`, and what
changes. -/
structure TakesOver (N : Nat) (bh : Nat) (dev : UInt16) (block : UInt32) (s s' : Cache) :
    Prop where
  head   : bh < N
  count  : s.buf.count bh = 0
  lock   : s.buf.lock bh = false
  dirt   : s.buf.dirt bh = false
  absent : findBuffer s.buf dev block = some none
  others : ∀ h, h ≠ bh → s'.buf.dev h = s.buf.dev h ∧ s'.buf.blocknr h = s.buf.blocknr h

variable {N : Nat} {fails : Prop} {ops : Nat → Prog Cache Tag Proc Ret → Prop}

/-- The contract of the code with payload `P`. -/
def contract (P : Payload N fails) (ops : Nat → Prog Cache Tag Proc Ret → Prop) :
    Contract (kernel fails ops) Hold where
  inv G s := Shape N s ∧ P.inv G s
  allow := P.allow
  check tag s s' := match tag with
    | some (.takeover bh dev block) => TakesOver N bh dev block s s'
    | some (.request write bh) => SameKeys s s' ∧ P.queued write bh s
    | some (.copyOut bh dev block offset pos chars) =>
      SameKeys s s' ∧ P.copied bh dev block offset pos chars s
    | _ => SameKeys s s'
  rest := P.rest
  inv_env _ _ _ h he := ⟨h.1.of_eq (queues_completes he), P.env h.1 h.2 he⟩
  reads _ _ _ := ⟨rfl, rfl⟩

/-! ## Preconditions and postconditions -/

/-- A buffer of `(dev, block)` has been got. -/
def Got (N : Nat) (dev : UInt16) (block : UInt32) (L : List Ref) (bh : Nat) (g : Hold)
    (s : Cache) : Prop :=
  g = holding (⟨bh, dev, block⟩ :: L) ∧ bh < N ∧ s.buf.lock bh = false

/-- A buffer of `(dev, block)` has been got, with its bytes. -/
def GotReady (P : Payload N fails) (dev : UInt16) (block : UInt32) (L : List Ref) (bh : Nat)
    (g : Hold) (s : Cache) : Prop :=
  Got N dev block L bh g s ∧ P.ready bh s

/-- What a procedure relies on; `L` are the references of its caller. -/
def Pre (P : Payload N fails) : Proc → List Ref → Hold → Cache → Prop
  | .waitOnBuffer _, L, g, _ => g = holding L
  | .lockBuffer bh, L, g, _ => g = holding L ∧ bh < N
  | .queueRequest w _ bh, L, g, _ => g = locking bh (some w) L
  | .getHashTable _ _, L, g, _ => g = holding L ∧ L.length ≤ 1
  | .getblk _ _, L, g, _ => g = holding L ∧ L.length ≤ 1
  | .scan _ _ tmp bh, L, g, _ =>
    g = holding L ∧ L.length ≤ 1 ∧ tmp < N ∧ ∀ x, bh = some x → x < N
  | .clean _ _ bh, L, g, s =>
    g = holding L ∧ L.length ≤ 1 ∧ bh < N ∧ s.buf.count bh = 0 ∧ s.buf.lock bh = false
  | .syncPass _ _, L, g, _ => g = holding L
  | .syncInodes _, L, g, _ => g = holding L ∧ L.length ≤ 1
  | .readAhead _ bh _, L, g, _ =>
    g = holding L ∧ L.length ≤ 1 ∧ bh < N ∧ ∃ r ∈ L, r.bh = bh ∧ P.reads r.dev r.block
  | .invalidate _ _, L, g, _ => g = holding L ∧ P.invalidates
  | .blockWrite dev _ offset _ _ _, L, g, _ =>
    g = holding [] ∧ L = [] ∧ offset ≤ blockSize ∧ P.overwrites ∧ ∀ block, P.reads dev block
  | .blockRead dev _ offset _ _ _, L, g, _ =>
    g = holding [] ∧ L = [] ∧ offset ≤ blockSize ∧ ∀ block, P.reads dev block

/-- What a procedure guarantees. -/
def Post (N : Nat) : Proc → List Ref → Ret → Hold → Cache → Prop
  | .waitOnBuffer bh, L, _, g, s => g = holding L ∧ s.buf.lock bh = false
  | .lockBuffer bh, L, _, g, _ => g = locking bh none L
  | .getHashTable dev block, L, r, g, s => match r with
    | none => g = holding L
    | some bh => Got N dev block L bh g s
  | .getblk dev block, L, r, g, s | .scan dev block _ _, L, r, g, s
  | .clean dev block _, L, r, g, s => ∃ bh, r = some bh ∧ Got N dev block L bh g s
  | _, L, _, g, _ => g = holding L

variable {P : Payload N fails}

theorem stable_lock (bh : Nat) :
    Stable (contract P ops) fun _ s => s.buf.lock bh = false :=
  fun _ _ _ _ _ h he => completes_lock he h

theorem stable_count (bh c : Nat) :
    Stable (contract P ops) fun _ s => s.buf.count bh = c := by
  intro _ _ s s' _ h he
  rw [(completes_count he).1]
  exact h

theorem stable_dirt (bh : Nat) (b : Bool) :
    Stable (contract P ops) fun _ s => s.buf.dirt bh = b := by
  intro _ _ s s' _ h he
  rw [(completes_count he).2]
  exact h

theorem stable_request (i : Nat) :
    Stable (contract P ops) fun _ s => s.request i = none :=
  fun _ _ _ _ _ h he => completes_request he h

theorem stable_ready (bh : Nat) :
    Stable (contract P ops) fun _ s => P.ready bh s :=
  fun _ _ _ _ hi h he => P.ready_env hi.2 h he

theorem stable_got {dev : UInt16} {block : UInt32} {L : List Ref} {bh : Nat} :
    Stable (contract P ops) (Got N dev block L bh) :=
  (stable_ghost _).and ((stable_ghost fun _ => bh < N).and (stable_lock bh))

theorem stable_gotReady {dev : UInt16} {block : UInt32} {L : List Ref} {bh : Nat} :
    Stable (contract P ops) (GotReady P dev block L bh) :=
  stable_got.and (stable_ready bh)

theorem stable_pre (p : Proc) (L : List Ref) : Stable (contract P ops) (Pre P p L) := by
  cases p with
  | clean dev block bh =>
    exact (stable_ghost _).and ((stable_ghost fun _ => L.length ≤ 1).and
      ((stable_ghost fun _ => bh < N).and ((stable_count bh 0).and (stable_lock bh))))
  | _ => exact fun _ _ _ _ _ h _ => h

/-! ## Requests -/

section Calls

variable {n : Nat} (ih : ∀ p L, Holds (contract P ops) n (Code.call p) (Pre P p L) (Post N p L))

/-- A change the queues do not see. -/
theorem holds_change {f : Cache → Cache} {R : Hold → Cache → Prop} {Q : Unit → Hold → Cache → Prop}
    (hst : Stable (contract P ops) R) (hq : ∀ s, (f s).buf.queues = s.buf.queues)
    (h : ∀ G t s, Shape N s → P.inv G s → R (G t) s →
      ∃ g, P.inv (Function.update G t g) (f s) ∧ Q () g (f s)) :
    Holds (contract P ops) n (Code.modify f) R Q := by
  refine holds_modify hst ?_
  intro G t s hi hs
  obtain ⟨g, hg, hQ⟩ := h G t s hi.1 hi.2 hs
  exact ⟨sameKeys_of_eq (hq s), g, ⟨hi.1.of_eq (hq s), hg⟩, hQ⟩

include ih

theorem waitOnBuffer_spec (bh : Nat) (L : List Ref) :
    Holds (contract P ops) n (waitOnBuffer bh) (fun g _ => g = holding L)
      (fun _ g s => g = holding L ∧ s.buf.lock bh = false) :=
  holds_bind (ih (.waitOnBuffer bh) L) fun _ => holds_pure fun _ _ _ _ h => h

theorem lockBuffer_spec {bh : Nat} (hbh : bh < N) (L : List Ref) :
    Holds (contract P ops) n (lockBuffer bh) (fun g _ => g = holding L)
      (fun _ g _ => g = locking bh none L) :=
  holds_bind ((ih (.lockBuffer bh) L).pre fun _ _ h => ⟨h, hbh⟩)
    fun _ => holds_pure fun _ _ _ _ h => h

omit ih in
theorem unlockBuffer_spec (bh : Nat) (x : Option Bool) (L : List Ref) :
    Holds (contract P ops) n (unlockBuffer bh) (fun g _ => g = locking bh x L)
      (fun _ g _ => g = holding L) := by
  refine holds_change (stable_ghost _) (fun _ => rfl) ?_
  intro G t s _ hi hg
  exact ⟨holding L, P.unlock hi hg, rfl⟩

theorem makeRequest_spec (rw : Rw) {bh : Nat} (hbh : bh < N) (L : List Ref)
    (hr : ¬ (rw = .write ∨ rw = .writea) →
      ∃ r ∈ L, r.bh = bh ∧ P.reads r.dev r.block ∧ P.driver r.dev) :
    Holds (contract P ops) n (makeRequest rw bh) (fun g _ => g = holding L)
      (fun _ g _ => g = holding L) := by
  refine holds_bind (R := fun _ g _ => g = holding L)
    (holds_read (stable_ghost _) fun _ _ _ _ h => h) fun locked => holds_ite ?_ ?_
  · exact fun _ => holds_pure fun _ _ _ _ h => h
  · intro _
    refine holds_bind (lockBuffer_spec ih hbh L) fun _ => ?_
    -- what the check found is kept in the ghost
    refine holds_bind (R := fun useless g _ => g = locking bh
      (if useless then none else some (decide (rw = .write ∨ rw = .writea))) L) ?_ ?_
    · refine holds_act (stable_ghost _) ?_
      intro G t s hi _ hg _
      set write : Bool := decide (rw = .write ∨ rw = .writea)
      cases hu : (write && !s.buf.dirt bh) || (!write && s.buf.uptodate bh) with
      | true =>
        refine ⟨⟨rfl, rfl⟩, G t, ?_, ?_⟩
        · rw [Function.update_eq_self]
          exact hi
        · exact hg
      | false =>
        refine ⟨⟨rfl, rfl⟩, locking bh (some write) L, ⟨hi.1, P.useful hi.2 hg ?_ ?_⟩, rfl⟩
        · cases hw : write <;> simpa [hw] using hu
        · intro hw
          exact hr (of_decide_eq_false hw)
    · intro useless
      refine holds_ite ?_ ?_
      · intro hu
        refine (unlockBuffer_spec bh none L).pre ?_
        intro g s hg
        rw [if_pos hu] at hg
        exact hg
      · intro hu
        refine holds_bind ((ih (.queueRequest _ _ bh) L).pre ?_)
          fun _ => holds_pure fun _ _ _ _ h => h
        intro g s hg
        rw [if_neg hu] at hg
        exact hg

/-- A buffer is read on behalf of a task that holds it. -/
theorem llRwBlock_spec (rw : Rw) {bh : Nat} (hbh : bh < N) (L : List Ref)
    (hr : ¬ (rw = .write ∨ rw = .writea) → ∃ r ∈ L, r.bh = bh ∧ P.reads r.dev r.block) :
    Holds (contract P ops) n (llRwBlock rw bh) (fun g _ => g = holding L)
      (fun _ g _ => g = holding L) := by
  refine holds_bind (R := fun driver g _ => g = holding L ∧
    (driver = true → ∀ r ∈ L, r.bh = bh → P.driver r.dev)) ?_ fun driver => holds_when ?_ ?_
  · refine holds_read (stable_ghost _) ?_
    intro G t s hi hg
    refine ⟨hg, ?_⟩
    rintro hd r hrL rfl
    exact P.inv_driver hi.2 hg hrL (by simpa [HasDriver] using hd)
  · intro hd
    refine holds_fact (p := ∀ r ∈ L, r.bh = bh → P.driver r.dev) ?_ fun _ _ h => h.2 hd
    intro hdriver
    refine (makeRequest_spec ih rw hbh L fun hw => ?_).pre fun _ _ h => h.1
    obtain ⟨r, hrL, hrbh, hreads⟩ := hr hw
    exact ⟨r, hrL, hrbh, hreads, hdriver r hrL hrbh⟩
  · exact fun _ _ _ _ h _ => h.1

omit ih in
/-- The slot found is free. -/
theorem emptyRequest_spec {s : Cache} {k i : Nat} (h : s.emptyRequest k = some i) :
    i < k ∧ s.request i = none := by
  induction k with
  | zero => cases h
  | succ k ih' =>
    rw [Cache.emptyRequest] at h
    split at h
    · next hn =>
      cases h
      exact ⟨Nat.lt_succ_self _, Option.isNone_iff_eq_none.mp hn⟩
    · obtain ⟨h1, h2⟩ := ih' h
      exact ⟨by omega, h2⟩

theorem queueRequest_spec (write ahead : Bool) (bh : Nat) (L : List Ref) :
    Holds (contract P ops) n (queueRequestBody write ahead bh)
      (Pre P (.queueRequest write ahead bh) L) (Post N (.queueRequest write ahead bh) L) := by
  refine holds_bind (R := fun slot g s => g = locking bh (some write) L ∧
    ∀ i, slot = some i → i < nrRequest ∧ s.request i = none) ?_ ?_
  · refine holds_read (stable_ghost _) ?_
    intro G t s _ hg
    refine ⟨hg, fun i hi => ?_⟩
    obtain ⟨h1, h2⟩ := emptyRequest_spec hi
    refine ⟨?_, h2⟩
    have hle : nrRequest * 2 / 3 ≤ nrRequest := by decide
    split at h1 <;> omega
  · intro slot
    cases slot with
    | some i =>
      refine holds_bind (R := fun _ g _ => g = holding L) ?_ fun _ => holds_pure fun _ _ _ _ h => h
      refine (holds_atom (P := fun g s => g = locking bh (some write) L ∧ i < nrRequest ∧
        s.request i = none) ?_ ?_).pre fun g s h => ⟨h.1, h.2 i rfl⟩
      · exact (stable_ghost _).and ((stable_ghost fun _ => i < nrRequest).and (stable_request i))
      · intro G t s hi hs ha
        obtain ⟨hg, hlt, hr⟩ := hs
        exact ⟨⟨⟨rfl, rfl⟩, P.promise hi.2 hg ha⟩, holding L,
          ⟨hi.1.of_eq rfl, P.request hi.2 hg hlt hr ha⟩, rfl⟩
    | none =>
      refine holds_ite ?_ ?_
      · intro _
        exact holds_bind ((unlockBuffer_spec bh (some write) L).pre fun _ _ h => h.1)
          fun _ => holds_pure fun _ _ _ _ h => h
      · intro _
        exact holds_bind ((holds_sleep _).pre fun _ _ h => h.1) fun _ =>
          ih (.queueRequest write ahead bh) L

theorem waitOnBufferBody_spec (bh : Nat) (L : List Ref) :
    Holds (contract P ops) n (waitOnBufferBody bh) (Pre P (.waitOnBuffer bh) L)
      (Post N (.waitOnBuffer bh) L) := by
  refine holds_bind (R := fun locked g s => g = holding L ∧
    (locked = false → s.buf.lock bh = false)) ?_ fun locked => holds_ite ?_ ?_
  · exact holds_read (stable_ghost _) fun _ _ _ _ h => ⟨h, id⟩
  · intro _
    exact holds_bind ((holds_sleep _).pre fun _ _ h => h.1) fun _ => ih (.waitOnBuffer bh) L
  · intro hl
    exact holds_pure fun _ _ _ _ h => ⟨h.1, h.2 (by simpa using hl)⟩

theorem lockBufferBody_spec (bh : Nat) (L : List Ref) :
    Holds (contract P ops) n (lockBufferBody bh) (Pre P (.lockBuffer bh) L)
      (Post N (.lockBuffer bh) L) := by
  refine holds_bind (R := fun locked g s => g = holding L ∧ bh < N ∧
    (locked = false → s.buf.lock bh = false)) ?_ fun locked => holds_ite ?_ ?_
  · exact holds_read (stable_ghost _) fun _ _ _ _ h => ⟨h.1, h.2, id⟩
  · intro _
    exact holds_bind ((holds_sleep fun g => g = holding L ∧ bh < N).pre fun _ _ h => ⟨h.1, h.2.1⟩)
      fun _ => ih (.lockBuffer bh) L
  · intro hl
    refine holds_bind (R := fun _ g _ => g = locking bh none L) ?_
      fun _ => holds_pure fun _ _ _ _ h => h
    have hset : Holds (contract P ops) n (Code.modify fun s => s.setLock bh true)
        (fun g s => g = holding L ∧ bh < N ∧ s.buf.lock bh = false)
        (fun _ g _ => g = locking bh none L) := by
      refine holds_change ?_ (fun _ => rfl) ?_
      · exact (stable_ghost _).and ((stable_ghost fun _ => bh < N).and (stable_lock bh))
      · intro G t s _ hi hs
        exact ⟨_, P.lock hi hs.1 hs.2.1 hs.2.2, rfl⟩
    exact hset.pre fun g s h => ⟨h.1, h.2.1, h.2.2 (by simpa using hl)⟩

/-! ## The cache -/

omit ih in
/-- What a lookup finds is a head that carries the pair. -/
theorem findBufferM_spec (dev : UInt16) (block : UInt32) (R : Hold → Cache → Prop)
    (hst : Stable (contract P ops) R) :
    Holds (contract P ops) n (findBufferM dev block) R
      (fun r g s => R g s ∧ findBuffer s.buf dev block = some r) := by
  refine holds_bind (R := fun r g s => R g s ∧ findBuffer s.buf dev block = r) ?_ ?_
  · exact holds_read hst fun _ _ _ _ h => ⟨h, rfl⟩
  · intro r
    cases r with
    | none => exact holds_panic
    | some r => exact holds_pure fun _ _ _ _ h => h

omit ih in
theorem findBuffer_queues (b : Buffers) (dev : UInt16) (block : UInt32) :
    findBuffer b.queues dev block = findBuffer b dev block := by
  have hfrom : ∀ k h, findFrom b.queues dev block k h = findFrom b dev block k h := by
    intro k
    induction k with
    | zero =>
      intro h
      cases h <;> rfl
    | succ k ihk =>
      intro h
      cases h with
      | none => rfl
      | some tmp =>
        rw [findFrom, findFrom, ihk]
        rfl
  exact hfrom _ _

omit ih in
theorem stable_findBuffer (dev : UInt16) (block : UInt32) (r : Option (Option Nat)) :
    Stable (contract P ops) fun _ s => findBuffer s.buf dev block = r := by
  intro _ _ s s' _ h he
  rw [← findBuffer_queues, queues_completes he, findBuffer_queues]
  exact h

/-- `get_hash_table`. -/
theorem getHashTable_spec (dev : UInt16) (block : UInt32) (L : List Ref) :
    Holds (contract P ops) n (getHashTableBody dev block) (Pre P (.getHashTable dev block) L)
      (Post N (.getHashTable dev block) L) := by
  refine holds_bind (findBufferM_spec dev block _ (stable_pre (.getHashTable dev block) L)) ?_
  intro r
  cases r with
  | none => exact holds_pure fun _ _ _ _ h => h.1.1
  | some bh =>
    -- the reference is taken before anything can sleep
    refine holds_bind (R := fun _ g _ => g = holding (⟨bh, dev, block⟩ :: L) ∧ L.length ≤ 1 ∧
      bh < N) ?_ fun _ => ?_
    · refine holds_change ((stable_pre (.getHashTable dev block) L).and
        (stable_findBuffer dev block _)) (fun _ => rfl) ?_
      intro G t s hsh hi hs
      obtain ⟨⟨hg, hL⟩, hf⟩ := hs
      obtain ⟨order, chain, Q⟩ := hsh.queues
      obtain ⟨-, hlt, hd, hb⟩ := (findBuffer_eq_some Q).mp hf
      rw [hsh.nr] at hlt
      exact ⟨_, P.acquire (r := ⟨bh, dev, block⟩) hsh hi hg hL hlt hd hb, rfl, hL, hlt⟩
    · refine holds_fact (p := L.length ≤ 1 ∧ bh < N) ?_ fun _ _ h => h.2
      rintro ⟨hL, hlt⟩
      refine holds_bind ((waitOnBuffer_spec ih bh (⟨bh, dev, block⟩ :: L)).pre fun _ _ h => h.1)
        fun _ => ?_
      refine holds_bind (R := fun _ g s => Got N dev block L bh g s)
        (holds_read ((stable_ghost _).and (stable_lock bh)) fun _ _ _ _ h => ⟨h.1, hlt, h.2⟩)
        fun same => holds_ite ?_ ?_
      · exact fun _ => holds_pure fun _ _ _ _ h => h
      · intro _
        refine holds_bind (R := fun _ g _ => g = holding L) ?_
          fun _ => (ih (.getHashTable dev block) L).pre fun _ _ h => ⟨h, hL⟩
        refine holds_change stable_got (fun _ => rfl) ?_
        intro G t s _ hi hs
        exact ⟨_, P.release (r := ⟨bh, dev, block⟩) hi hs.1, rfl⟩

theorem getblk_spec (dev : UInt16) (block : UInt32) {L : List Ref} (hL : L.length ≤ 1) :
    Holds (contract P ops) n (getblk dev block) (fun g _ => g = holding L)
      (fun r g s => ∃ bh, r = some bh ∧ Got N dev block L bh g s) :=
  (ih (.getblk dev block) L).pre fun _ _ h => ⟨h, hL⟩

/-- `getblk` up to the search. -/
theorem getblkBody_spec (dev : UInt16) (block : UInt32) (L : List Ref) :
    Holds (contract P ops) n (getblkBody dev block) (Pre P (.getblk dev block) L)
      (Post N (.getblk dev block) L) := by
  refine holds_fact (p := L.length ≤ 1) ?_ fun _ _ h => h.2
  intro hL
  refine holds_bind (ih (.getHashTable dev block) L) fun r => ?_
  cases r with
  | some bh => exact holds_pure fun _ _ _ _ h => ⟨bh, rfl, h⟩
  | none =>
    refine holds_bind (R := fun first g _ => g = holding L ∧ ∀ x, first = some x → x < N) ?_ ?_
    · refine holds_read (stable_ghost _) ?_
      intro G t s hi hg
      refine ⟨hg, fun x hx => ?_⟩
      obtain ⟨order, chain, Q⟩ := hi.1.queues
      rw [Q.first] at hx
      rw [← hi.1.nr, ← Q.mem]
      exact List.mem_of_head? hx
    · intro first
      cases first with
      | none => exact holds_panic
      | some tmp =>
        exact (ih (.scan dev block tmp none) L).pre fun _ _ h =>
          ⟨h.1, hL, h.2 tmp rfl, fun x hx => by cases hx⟩

/-- A chosen buffer is unlocked and free, or the search starts again. -/
theorem tryBuffer_spec (dev : UInt16) (block : UInt32) {bh : Nat} (hbh : bh < N) {L : List Ref}
    (hL : L.length ≤ 1) :
    Holds (contract P ops) n (tryBuffer dev block bh) (fun g _ => g = holding L)
      (fun r g s => ∃ bh, r = some bh ∧ Got N dev block L bh g s) := by
  refine holds_bind (waitOnBuffer_spec ih bh L) fun _ => ?_
  refine holds_bind (R := fun c g s => (g = holding L ∧ s.buf.lock bh = false) ∧
    s.buf.count bh = c) ?_ fun c => holds_ite ?_ ?_
  · exact holds_read ((stable_ghost _).and (stable_lock bh)) fun _ _ _ _ h => ⟨h, rfl⟩
  · exact fun _ => (getblk_spec ih dev block hL).pre fun _ _ h => h.1.1
  · intro hc
    refine (ih (.clean dev block bh) L).pre ?_
    rintro g s ⟨⟨hg, hl⟩, hcount⟩
    exact ⟨hg, hL, hbh, hcount.trans (by simpa using hc), hl⟩

theorem endScan_spec (dev : UInt16) (block : UInt32) {bh : Option Nat}
    (hbh : ∀ x, bh = some x → x < N) {L : List Ref} (hL : L.length ≤ 1) :
    Holds (contract P ops) n (endScan dev block bh) (fun g _ => g = holding L)
      (fun r g s => ∃ bh, r = some bh ∧ Got N dev block L bh g s) := by
  cases bh with
  | none => exact holds_bind (holds_sleep _) fun _ => getblk_spec ih dev block hL
  | some bh => exact tryBuffer_spec ih dev block (hbh bh rfl) hL

theorem scanNext_spec (dev : UInt16) (block : UInt32) {tmp : Nat} (htmp : tmp < N)
    {bh : Option Nat} (hbh : ∀ x, bh = some x → x < N) {L : List Ref} (hL : L.length ≤ 1) :
    Holds (contract P ops) n (scanNext dev block tmp bh) (fun g _ => g = holding L)
      (fun r g s => ∃ bh, r = some bh ∧ Got N dev block L bh g s) := by
  refine holds_bind (R := fun p g _ => g = holding L ∧ ∀ x, p.1 = some x → x < N) ?_ ?_
  · refine holds_read (stable_ghost _) ?_
    intro G t s hi hg
    refine ⟨hg, fun x hx => ?_⟩
    obtain ⟨order, chain, Q⟩ := hi.1.queues
    have hmem : tmp ∈ order := (Q.mem tmp).mpr (by rw [hi.1.nr]; exact htmp)
    rw [← hi.1.nr, ← Q.mem]
    exact Q.ring.next_mem hmem hx
  · rintro ⟨succ, first⟩
    cases succ with
    | none => exact holds_panic
    | some t =>
      refine holds_ite ?_ ?_
      · exact fun _ => (endScan_spec ih dev block hbh hL).pre fun _ _ h => h.1
      · exact fun _ => (ih (.scan dev block t bh) L).pre fun _ _ h => ⟨h.1, hL, h.2 t rfl, hbh⟩

theorem scanBody_spec (dev : UInt16) (block : UInt32) (tmp : Nat) (bh : Option Nat)
    (L : List Ref) :
    Holds (contract P ops) n (scanBody dev block tmp bh) (Pre P (.scan dev block tmp bh) L)
      (Post N (.scan dev block tmp bh) L) := by
  refine holds_fact (p := L.length ≤ 1 ∧ tmp < N ∧ ∀ x, bh = some x → x < N) ?_ fun _ _ h => h.2
  rintro ⟨hL, htmp, hbh⟩
  have hsome : ∀ x, some tmp = some x → x < N := by
    intro x hx
    cases hx
    exact htmp
  refine holds_bind (R := fun _ g _ => g = holding L)
    (holds_read (stable_pre (.scan dev block tmp bh) L) fun _ _ _ _ h => h.1)
    fun c => holds_ite ?_ ?_
  · exact fun _ => scanNext_spec ih dev block htmp hbh hL
  · intro _
    refine holds_bind (R := fun _ g _ => g = holding L)
      (holds_read (stable_ghost _) fun _ _ _ _ h => h) fun better => holds_ite ?_ ?_
    · intro _
      refine holds_bind (R := fun _ g _ => g = holding L)
        (holds_read (stable_ghost _) fun _ _ _ _ h => h) fun bad => holds_ite ?_ ?_
      · exact fun _ => endScan_spec ih dev block hsome hL
      · exact fun _ => scanNext_spec ih dev block htmp hsome hL
    · exact fun _ => scanNext_spec ih dev block htmp hbh hL

theorem syncDev_spec (dev : UInt16) {L : List Ref} (hL : L.length ≤ 1) :
    Holds (contract P ops) n (syncDev dev) (fun g _ => g = holding L)
      (fun _ g _ => g = holding L) := by
  refine holds_bind (ih (.syncPass (some dev) 0) L) fun _ => ?_
  refine holds_bind ((ih (.syncInodes 0) L).pre fun _ _ h => ⟨h, hL⟩) fun _ => ?_
  exact holds_bind (ih (.syncPass (some dev) 0) L) fun _ => holds_pure fun _ _ _ _ h => h

/-- The end of `getblk`: nothing sleeps between the last checks and the
takeover. -/
theorem cleanBody_spec (dev : UInt16) (block : UInt32) (bh : Nat) (L : List Ref) :
    Holds (contract P ops) n (cleanBody dev block bh) (Pre P (.clean dev block bh) L)
      (Post N (.clean dev block bh) L) := by
  have hpre : Stable (contract P ops) (Pre P (.clean dev block bh) L) :=
    stable_pre (.clean dev block bh) L
  refine holds_fact (p := L.length ≤ 1 ∧ bh < N) ?_ fun _ _ h => ⟨h.2.1, h.2.2.1⟩
  rintro ⟨hL, hbh⟩
  refine holds_bind (R := fun dirt g s => Pre P (.clean dev block bh) L g s ∧
    s.buf.dirt bh = dirt) (holds_read hpre fun _ _ _ _ h => ⟨h, rfl⟩) fun dirt => holds_ite ?_ ?_
  · intro _
    refine holds_bind (R := fun _ g _ => g = holding L)
      (holds_read (hpre.and (stable_dirt bh dirt)) fun _ _ _ _ h => h.1.1) fun d => ?_
    exact holds_bind (syncDev_spec ih d hL) fun _ => tryBuffer_spec ih dev block hbh hL
  · intro hd
    refine holds_bind (findBufferM_spec dev block _ (hpre.and (stable_dirt bh dirt))) fun r => ?_
    cases r with
    | some _ => exact (getblk_spec ih dev block hL).pre fun _ _ h => h.1.1.1
    | none =>
      have hst := (hpre.and (stable_dirt bh dirt)).and (stable_findBuffer dev block (some none))
      refine holds_bind (R := fun _ g s => (Pre P (.clean dev block bh) L g s ∧
        s.buf.dirt bh = dirt) ∧ findBuffer s.buf dev block = some none)
        (holds_read hst fun _ _ _ _ h => h) fun ok => holds_ite ?_ ?_
      · intro _
        refine holds_bind (R := fun _ g s => Got N dev block L bh g s) ?_
          fun _ => holds_pure fun _ _ _ _ h => ⟨bh, rfl, h⟩
        refine holds_atom hst ?_
        intro G t s hi hs ha
        obtain ⟨⟨⟨hg, -, -, hcount, hlock⟩, hdirt⟩, habsent⟩ := hs
        have hclean : s.buf.dirt bh = false := hdirt.trans (by simpa using hd)
        obtain ⟨order, chain, Q⟩ := hi.1.queues
        have hlt : bh < s.buf.nrBuffers := by rw [hi.1.nr]; exact hbh
        obtain ⟨b, hb, T, Q'⟩ := takeover_queues Q hlt fun hdev =>
          ((findBuffer_eq_none Q).mp habsent).resolve_left hdev
        have hs' : s.takeover bh dev block = { s with buf := b } := by
          rw [Cache.takeover, hb]
          rfl
        rw [hs']
        refine ⟨⟨hbh, hcount, hlock, hclean, habsent, ?_⟩, _,
          ⟨⟨T.nrBuffers.trans hi.1.nr, _, _, Q'⟩,
            P.takeover hi.1 hi.2 hg hL hbh hcount hlock hclean habsent T ha⟩, rfl, hbh, ?_⟩
        · intro h hne
          dsimp only
          rw [T.dev, T.blocknr, Function.update_of_ne hne, Function.update_of_ne hne]
          exact ⟨rfl, rfl⟩
        · dsimp only
          rw [T.lock]
          exact hlock
      · exact fun _ => holds_panic

theorem brelse_spec (r : Ref) (L : List Ref) :
    Holds (contract P ops) n (brelse r.bh) (fun g _ => g = holding (r :: L))
      (fun _ g _ => g = holding L) := by
  refine holds_bind ((waitOnBuffer_spec ih r.bh (r :: L)).conseq (fun _ _ h => h)
    fun _ _ _ h => h.1) fun _ => ?_
  refine holds_bind (R := fun _ g _ => g = holding (r :: L))
    (holds_read (stable_ghost _) fun _ _ _ _ h => h) fun c => ?_
  refine holds_bind (R := fun _ g _ => g = holding L) ?_ fun _ => holds_ite ?_ ?_
  · refine holds_change (stable_ghost _) (fun _ => rfl) ?_
    intro G t s _ hi hg
    exact ⟨_, P.release hi hg, rfl⟩
  · exact fun _ => holds_panic
  · exact fun _ => holds_pure fun _ _ _ _ h => h

/-- The end of `bread` and `breada`: the buffer has its bytes, or is given
up. -/
theorem settle_spec (dev : UInt16) (block : UInt32) {bh : Nat} (hbh : bh < N) (L : List Ref) :
    Holds (contract P ops) n
      (do
        waitOnBuffer bh
        let uptodate ← Code.read fun s => s.buf.uptodate bh
        if uptodate then pure (some bh)
        else do
          brelse bh
          pure none : M Ret)
      (fun g _ => g = holding (⟨bh, dev, block⟩ :: L))
      (fun r g s => (∀ h, r = some h → GotReady P dev block L h g s) ∧
        (r = none → g = holding L)) := by
  refine holds_bind (waitOnBuffer_spec ih bh (⟨bh, dev, block⟩ :: L)) fun _ => ?_
  refine holds_bind (R := fun u g s => Got N dev block L bh g s ∧ (u = true → P.ready bh s)) ?_
    fun u => holds_ite ?_ ?_
  · refine holds_read ((stable_ghost _).and (stable_lock bh)) ?_
    intro G t s hi hs
    exact ⟨⟨hs.1, hbh, hs.2⟩, fun hu => P.ready_intro hi.2 hs.2 hu⟩
  · intro hu
    refine holds_pure ?_
    intro G t s _ hs
    refine ⟨?_, fun h => by cases h⟩
    intro h hh
    cases hh
    exact ⟨hs.1, hs.2 hu⟩
  · intro _
    refine holds_bind ((brelse_spec ih ⟨bh, dev, block⟩ L).pre fun _ _ h => h.1.1) fun _ => ?_
    refine holds_pure ?_
    intro G t s _ hg
    exact ⟨fun h hh => (by cases hh), fun _ => hg⟩

/-- `bread` returns a buffer with the bytes of the block. -/
theorem bread_spec (dev : UInt16) (block : UInt32) {L : List Ref} (hL : L.length ≤ 1)
    (hreads : P.reads dev block) :
    Holds (contract P ops) n (bread dev block) (fun g _ => g = holding L)
      (fun r g s => (∀ h, r = some h → GotReady P dev block L h g s) ∧
        (r = none → g = holding L)) := by
  refine holds_bind (getblk_spec ih dev block hL) fun r => ?_
  cases r with
  | none => exact holds_panic
  | some bh =>
    refine holds_fact (p := bh < N) ?_ ?_
    · intro hbh
      refine holds_bind (R := fun u g s => Got N dev block L bh g s ∧ (u = true → P.ready bh s))
        ?_ fun u => holds_ite ?_ ?_
      · refine (holds_read (P := Got N dev block L bh) stable_got ?_).pre ?_
        · intro G t s hi hs
          exact ⟨hs, fun hu => P.ready_intro hi.2 hs.2.2 hu⟩
        · intro g s h
          obtain ⟨h, hr, hg⟩ := h
          cases hr
          exact hg
      · intro hu
        refine holds_pure ?_
        intro G t s _ hs
        refine ⟨?_, fun h => by cases h⟩
        intro h hh
        cases hh
        exact ⟨hs.1, hs.2 hu⟩
      · intro _
        refine holds_bind ((llRwBlock_spec ih .read hbh (⟨bh, dev, block⟩ :: L) fun _ =>
          ⟨_, List.mem_cons_self .., rfl, hreads⟩).pre fun _ _ h => h.1.1) fun _ => ?_
        exact settle_spec ih dev block hbh L
    · rintro g s ⟨h, hr, hg⟩
      cases hr
      exact hg.2.1

/-- `breada`, likewise; its caller holds no other buffer. -/
theorem breada_spec (dev : UInt16) (first : UInt32) (args : List UInt32)
    (hreads : P.reads dev first) :
    Holds (contract P ops) n (breada dev first args) (fun g _ => g = holding [])
      (fun r g s => (∀ h, r = some h → GotReady P dev first [] h g s) ∧
        (r = none → g = holding [])) := by
  refine holds_bind (getblk_spec ih dev first (Nat.zero_le 1)) fun r => ?_
  cases r with
  | none => exact holds_panic
  | some bh =>
    refine holds_fact (p := bh < N) ?_ ?_
    · intro hbh
      have hown : ∀ g s, (∃ h, some bh = some h ∧ Got N dev first [] h g s) →
          g = holding [⟨bh, dev, first⟩] := by
        rintro g s ⟨h, hr, hg⟩
        cases hr
        exact hg.1
      refine holds_bind (R := fun _ g _ => g = holding [⟨bh, dev, first⟩])
        ((holds_read (stable_ghost _) fun _ _ _ _ h => h).pre hown) fun u => ?_
      refine holds_bind (R := fun _ g _ => g = holding [⟨bh, dev, first⟩]) (holds_when ?_ ?_)
        fun _ => ?_
      · exact fun _ => llRwBlock_spec ih .read hbh _ fun _ =>
          ⟨_, List.mem_cons_self .., rfl, hreads⟩
      · exact fun _ _ _ _ h _ => h
      · refine holds_bind ((ih (.readAhead dev bh args) [⟨bh, dev, first⟩]).pre
          fun _ _ h => ⟨h, Nat.le_refl 1, hbh, _, List.mem_cons_self .., rfl, hreads⟩) fun _ => ?_
        exact settle_spec ih dev first hbh []
    · rintro g s ⟨h, hr, hg⟩
      cases hr
      exact hg.2.1

theorem readAheadBody_spec (dev : UInt16) (bh : Nat) (args : List UInt32) (L : List Ref) :
    Holds (contract P ops) n (readAheadBody dev bh args) (Pre P (.readAhead dev bh args) L)
      (Post N (.readAhead dev bh args) L) := by
  refine holds_fact (p := L.length ≤ 1 ∧ bh < N ∧ ∃ r ∈ L, r.bh = bh ∧ P.reads r.dev r.block)
    ?_ fun _ _ h => h.2
  rintro ⟨hL, hbh, hr⟩
  have hrest : ∀ args, Holds (contract P ops) n (Code.call (.readAhead dev bh args))
      (fun g _ => g = holding L) (fun _ g _ => g = holding L) :=
    fun args => (ih (.readAhead dev bh args) L).pre fun _ _ h => ⟨h, hL, hbh, hr⟩
  cases args with
  | nil => exact holds_pure fun _ _ _ _ h => h.1
  | cons first args =>
    refine holds_ite ?_ ?_
    · intro _
      refine holds_bind ((getblk_spec ih dev first hL).pre fun _ _ h => h.1) fun r => ?_
      cases r with
      | none =>
        refine (hrest args).pre ?_
        rintro g s ⟨h, hr, -⟩
        cases hr
      | some tmp =>
        have hown : ∀ g s, (∃ h, some tmp = some h ∧ Got N dev first L h g s) →
            g = holding (⟨tmp, dev, first⟩ :: L) := by
          rintro g s ⟨h, hr, hg⟩
          cases hr
          exact hg.1
        refine holds_bind (R := fun _ g _ => g = holding (⟨tmp, dev, first⟩ :: L))
          ((holds_read (stable_ghost _) fun _ _ _ _ h => h).pre hown) fun u => ?_
        refine holds_bind (R := fun _ g _ => g = holding (⟨tmp, dev, first⟩ :: L))
          (holds_when ?_ ?_) fun _ => ?_
        · obtain ⟨r, hrL, hrbh⟩ := hr
          exact fun _ => llRwBlock_spec ih .reada hbh _ fun _ =>
            ⟨r, List.mem_cons_of_mem _ hrL, hrbh⟩
        · exact fun _ _ _ _ h _ => h
        · refine holds_bind (R := fun _ g _ => g = holding L) ?_ fun _ => hrest args
          refine holds_change (stable_ghost _) (fun _ => rfl) ?_
          intro G t s _ hi hg
          exact ⟨_, P.release (r := ⟨tmp, dev, first⟩) hi hg, rfl⟩
    · exact fun _ => holds_pure fun _ _ _ _ h => h.1

/-! ## Write-back -/

theorem syncPassBody_spec (dev : Option UInt16) (i : Nat) (L : List Ref) :
    Holds (contract P ops) n (syncPassBody dev i) (Pre P (.syncPass dev i) L)
      (Post N (.syncPass dev i) L) := by
  refine holds_bind (R := fun p g _ => g = holding L ∧ (p.2 = true → i < N)) ?_ ?_
  · refine holds_read (stable_ghost _) ?_
    intro G t s hi hg
    refine ⟨hg, fun h => ?_⟩
    rw [← hi.1.nr]
    simpa using h
  · rintro ⟨here, more⟩
    refine holds_ite ?_ fun hmore => holds_ite ?_ ?_
    · exact fun _ => holds_pure fun _ _ _ _ h => h.1
    · exact fun _ => (ih (.syncPass dev (i + 1)) L).pre fun _ _ h => h.1
    · intro _
      refine holds_fact (p := i < N) ?_ fun _ _ h => h.2 (by simpa using hmore)
      intro hi
      refine holds_bind ((waitOnBuffer_spec ih i L).conseq (fun _ _ h => h.1) fun _ _ _ h => h.1)
        fun _ => ?_
      refine holds_bind (R := fun _ g _ => g = holding L)
        (holds_read (stable_ghost _) fun _ _ _ _ h => h) fun dirt => ?_
      refine holds_bind (R := fun _ g _ => g = holding L) (holds_when ?_ ?_)
        fun _ => ih (.syncPass dev (i + 1)) L
      · exact fun _ => llRwBlock_spec ih .write hi L fun h => absurd (Or.inl rfl) h
      · exact fun _ _ _ _ h _ => h

theorem writeInode_spec (dev : UInt16) (block : UInt32) (i v : Nat) {L : List Ref}
    (hL : L.length ≤ 1) :
    Holds (contract P ops) n (writeInode dev block i v)
      (fun g _ => g = holding L ∧ P.core dev) (fun _ g _ => g = holding L) := by
  refine holds_fact (p := P.core dev) ?_ fun _ _ h => h.2
  intro hcore
  refine holds_bind ((bread_spec ih dev block hL (P.core_reads hcore)).pre fun _ _ h => h.1)
    fun r => ?_
  cases r with
  | none => exact holds_panic
  | some bh =>
    refine holds_bind (R := fun _ g _ => g = holding (⟨bh, dev, block⟩ :: L)) ?_
      fun _ => brelse_spec ih ⟨bh, dev, block⟩ L
    have hput : Holds (contract P ops) n (Code.modify fun s => s.putInode bh i v)
        (GotReady P dev block L bh) (fun _ g _ => g = holding (⟨bh, dev, block⟩ :: L)) := by
      refine holds_change stable_gotReady (fun _ => rfl) ?_
      intro G t s _ hi hs
      refine ⟨G t, ?_, hs.1.1⟩
      rw [Function.update_eq_self]
      exact P.putInode hi hs.1.1 hs.1.2.1 hcore hs.2
    exact hput.pre fun _ _ h => h.1 bh rfl

theorem syncInodesBody_spec (i : Nat) (L : List Ref) :
    Holds (contract P ops) n (syncInodesBody i) (Pre P (.syncInodes i) L)
      (Post N (.syncInodes i) L) := by
  refine holds_fact (p := L.length ≤ 1) ?_ fun _ _ h => h.2
  intro hL
  have hcall : ∀ i, Holds (contract P ops) n (Code.call (.syncInodes i))
      (fun g _ => g = holding L) (fun _ g _ => g = holding L) :=
    fun i => (ih (.syncInodes i) L).pre fun _ _ h => ⟨h, hL⟩
  have hask : Holds (contract P ops) n Code.ask (fun g _ => g = holding L)
      (fun _ g _ => g = holding L) :=
    holds_ask (stable_ghost _) fun _ _ _ _ _ h => h
  refine holds_ite ?_ fun _ => holds_pure fun _ _ _ _ h => h.1
  intro _
  refine holds_bind (hask.pre fun _ _ h => h.1) fun locked => holds_ite ?_ ?_
  · exact fun _ => holds_bind (holds_sleep _) fun _ => hcall i
  · intro _
    refine holds_bind hask fun dirt => holds_ite (fun _ => hcall (i + 1)) fun _ => ?_
    refine holds_bind hask fun dev => holds_bind hask fun block => holds_bind hask fun record =>
      holds_bind hask fun v => ?_
    refine holds_bind (R := fun core g _ => g = holding L ∧
      (core = true → P.core (UInt16.ofNat dev)))
      (holds_read (stable_ghost _) fun _ _ _ hi h => ⟨h, P.inv_core hi.2⟩) fun core => ?_
    refine holds_bind (R := fun _ g _ => g = holding L) (holds_when ?_ ?_) fun _ => hcall (i + 1)
    · intro hcore
      exact (writeInode_spec ih _ _ record v hL).pre fun _ _ h => ⟨h.1, h.2 hcore⟩
    · exact fun _ _ _ _ h _ => h.1

theorem invalidateBody_spec (dev : UInt16) (i : Nat) (L : List Ref) :
    Holds (contract P ops) n (invalidateBody dev i) (Pre P (.invalidate dev i) L)
      (Post N (.invalidate dev i) L) := by
  refine holds_fact (p := P.invalidates) ?_ fun _ _ h => h.2
  intro hinv
  have hnext : Holds (contract P ops) n (Code.call (.invalidate dev (i + 1)))
      (fun g _ => g = holding L) (fun _ g _ => g = holding L) :=
    (ih (.invalidate dev (i + 1)) L).pre fun _ _ h => ⟨h, hinv⟩
  refine holds_bind (R := fun _ g _ => g = holding L)
    (holds_read (stable_ghost _) fun _ _ _ _ h => h.1) ?_
  rintro ⟨here, more⟩
  refine holds_ite ?_ fun _ => holds_ite ?_ ?_
  · exact fun _ => holds_pure fun _ _ _ _ h => h
  · exact fun _ => hnext
  · intro _
    refine holds_bind ((waitOnBuffer_spec ih i L).conseq (fun _ _ h => h) fun _ _ _ h => h.1)
      fun _ => ?_
    refine holds_bind (R := fun _ g _ => g = holding L)
      (holds_read (stable_ghost _) fun _ _ _ _ h => h) fun here => ?_
    refine holds_bind (R := fun _ g _ => g = holding L) (holds_when ?_ ?_) fun _ => hnext
    · intro _
      refine holds_change (stable_ghost _) (fun _ => rfl) ?_
      intro G t s _ hi hg
      refine ⟨G t, ?_, hg⟩
      rw [Function.update_eq_self]
      exact P.invalidate hinv hi
    · exact fun _ _ _ _ h _ => h

/-! ## Block devices -/

/-- The buffer `block_write` stores to has its bytes, or all of them are
written. -/
theorem blockFor_spec (dev : UInt16) (block : UInt32) (whole : Bool)
    (hreads : P.reads dev block) :
    Holds (contract P ops) n (blockFor dev block whole) (fun g _ => g = holding [])
      (fun r g s => (∀ h, r = some h → Got N dev block [] h g s ∧ (P.ready h s ∨ whole = true)) ∧
        (r = none → g = holding [])) := by
  refine holds_ite ?_ ?_
  · intro hw
    refine (getblk_spec ih dev block (L := []) (Nat.zero_le 1)).conseq (fun _ _ h => h) ?_
    rintro r g s ⟨bh, rfl, hg⟩
    refine ⟨?_, fun h => by cases h⟩
    intro h hh
    cases hh
    exact ⟨hg, Or.inr hw⟩
  · intro _
    refine (breada_spec ih dev block _ hreads).conseq (fun _ _ h => h) ?_
    intro r g s h
    exact ⟨fun bh hbh => ⟨(h.1 bh hbh).1, Or.inl (h.1 bh hbh).2⟩, h.2⟩

theorem blockWriteBody_spec (dev : UInt16) (block : UInt32) (offset : Nat) (pos : UInt32)
    (buf : List UInt8) (written : Nat) (L : List Ref) :
    Holds (contract P ops) n (blockWriteBody dev block offset pos buf written)
      (Pre P (.blockWrite dev block offset pos buf written) L)
      (Post N (.blockWrite dev block offset pos buf written) L) := by
  refine holds_fact (p := L = [] ∧ offset ≤ blockSize ∧ P.overwrites ∧
    ∀ block, P.reads dev block) ?_ fun _ _ h => h.2
  rintro ⟨rfl, hoff, hover, hreads⟩
  refine holds_ite ?_ ?_
  · exact fun _ => holds_pure fun _ _ _ _ h => h.1
  · intro _
    set chars := min (blockSize - offset) buf.length with hchars
    have hlen : (buf.take chars).length = chars := by
      rw [List.length_take]
      omega
    have hroom : offset + (buf.take chars).length ≤ blockSize := by omega
    refine holds_bind ((blockFor_spec ih dev block _ (hreads block)).pre fun _ _ h => h.1)
      fun r => ?_
    cases r with
    | none => exact holds_pure fun _ _ _ _ h => h.2 rfl
    | some bh =>
      refine holds_bind (R := fun _ g _ => g = holding [⟨bh, dev, block⟩]) ?_ fun _ => ?_
      · have hcopy : Holds (contract P ops) n
            (Code.atom (.copyIn bh dev block offset pos chars) fun s =>
              s.copyIn bh dev pos offset (buf.take chars))
            (fun g s => Got N dev block [] bh g s ∧ (P.ready bh s ∨ chars = blockSize))
            (fun _ g _ => g = holding [⟨bh, dev, block⟩]) := by
          refine holds_atom ?_ ?_
          · intro G t s s' hi hs he
            refine ⟨stable_got G t s s' hi hs.1 he, ?_⟩
            exact hs.2.imp_left fun hr => P.ready_env hi.2 hr he
          · intro G t s hi hs ha
            obtain ⟨⟨hg, hbh, hlock⟩, hready⟩ := hs
            refine ⟨⟨rfl, rfl⟩, G t, ?_, hg⟩
            rw [Function.update_eq_self]
            refine ⟨hi.1.of_eq rfl, P.copyIn hover hi.1 hi.2 hg hbh hlock ?_ hroom ?_⟩
            · rw [hlen]
              exact hready
            · rw [hlen]
              exact ha
        refine hcopy.pre ?_
        intro g s h
        obtain ⟨hg, hr⟩ := h.1 bh rfl
        exact ⟨hg, hr.imp_right fun hw => by simpa using hw⟩
      · refine holds_bind (brelse_spec ih ⟨bh, dev, block⟩ []) fun _ => ?_
        exact (ih (.blockWrite dev (block + 1) 0 _ _ _) []).pre
          fun _ _ h => ⟨h, rfl, Nat.zero_le _, hover, hreads⟩

theorem blockReadBody_spec (dev : UInt16) (block : UInt32) (offset : Nat) (pos : UInt32)
    (count read : Nat) (L : List Ref) :
    Holds (contract P ops) n (blockReadBody dev block offset pos count read)
      (Pre P (.blockRead dev block offset pos count read) L)
      (Post N (.blockRead dev block offset pos count read) L) := by
  refine holds_fact (p := L = [] ∧ offset ≤ blockSize ∧ ∀ block, P.reads dev block) ?_
    fun _ _ h => h.2
  rintro ⟨rfl, hoff, hreads⟩
  refine holds_ite ?_ ?_
  · exact fun _ => holds_pure fun _ _ _ _ h => h.1
  · intro _
    have hroom : offset + min (blockSize - offset) count ≤ blockSize := by omega
    refine holds_bind ((breada_spec ih dev block _ (hreads block)).pre fun _ _ h => h.1)
      fun r => ?_
    cases r with
    | none => exact holds_pure fun _ _ _ _ h => h.2 rfl
    | some bh =>
      refine holds_bind (R := fun _ g _ => g = holding [⟨bh, dev, block⟩]) ?_ fun _ => ?_
      · have hcopy : Holds (contract P ops) n
            (Code.atom (.copyOut bh dev block offset pos (min (blockSize - offset) count)) id)
            (GotReady P dev block [] bh) (fun _ g _ => g = holding [⟨bh, dev, block⟩]) := by
          refine holds_atom stable_gotReady ?_
          intro G t s hi hs ha
          obtain ⟨⟨hg, hbh, -⟩, hready⟩ := hs
          refine ⟨⟨⟨rfl, rfl⟩, P.copyOut hi.1 hi.2 hg hbh hready hroom ha⟩, G t, ?_, hg⟩
          rw [Function.update_eq_self]
          exact hi
        exact hcopy.pre fun _ _ h => h.1 bh rfl
      · refine holds_bind (brelse_spec ih ⟨bh, dev, block⟩ []) fun _ => ?_
        exact (ih (.blockRead dev (block + 1) 0 _ _ _) []).pre
          fun _ _ h => ⟨h, rfl, Nat.zero_le _, hreads⟩

theorem body_spec (p : Proc) (L : List Ref) :
    Holds (contract P ops) n (body p) (Pre P p L) (Post N p L) := by
  cases p with
  | waitOnBuffer bh => exact waitOnBufferBody_spec ih bh L
  | lockBuffer bh => exact lockBufferBody_spec ih bh L
  | queueRequest w a bh => exact queueRequest_spec ih w a bh L
  | getHashTable dev block => exact getHashTable_spec ih dev block L
  | getblk dev block => exact getblkBody_spec ih dev block L
  | scan dev block tmp bh => exact scanBody_spec ih dev block tmp bh L
  | clean dev block bh => exact cleanBody_spec ih dev block bh L
  | syncPass dev i => exact syncPassBody_spec ih dev i L
  | syncInodes i => exact syncInodesBody_spec ih i L
  | readAhead dev bh args => exact readAheadBody_spec ih dev bh args L
  | invalidate dev i => exact invalidateBody_spec ih dev i L
  | blockWrite dev block offset pos buf written =>
    exact blockWriteBody_spec ih dev block offset pos buf written L
  | blockRead dev block offset pos count read =>
    exact blockReadBody_spec ih dev block offset pos count read L

end Calls

/-- **Every procedure keeps the contract.** -/
theorem call_spec (n : Nat) (p : Proc) (L : List Ref) :
    Holds (contract P ops) n (Code.call p) (Pre P p L) (Post N p L) :=
  holds_call stable_pre (fun _ ih p L => body_spec ih p L) n p L

end Linux011.Fs
