import Linux011.Fs.CacheRuns

/-!
# Buffer cache — the pointers the list surgery goes through

`remove_from_queues` and `insert_into_queues` once more, statement by
statement, with a record of every pointer a field was read or written through.
As far as the heads are concerned these are the functions of the cache
(`takeoverThrough_spec`).

`insert_into_queues` ends with `bh->b_next->b_prev = bh`, which is right for
every bucket but an empty one.

* `removeFromQueuesThrough_spec` — never goes through a null pointer;
* `insertIntoQueuesThrough_spec` — does so exactly when the bucket is empty;
* `getblk_through_null` — which takeovers of a running machine go through null.
-/

namespace Linux011.Fs

open Linux011.Lib
open Linux011.Lib.Kernel

/-- The fields of a head that point to another head. -/
inductive Link
  | next
  | prev
  | nextFree
  | prevFree

def Buffers.link (s : Buffers) : Link → Nat → Option Nat
  | .next     => s.next
  | .prev     => s.prev
  | .nextFree => s.nextFree
  | .prevFree => s.prevFree

def Buffers.setLink (s : Buffers) (l : Link) (f : Nat → Option Nat) : Buffers :=
  match l with
  | .next     => { s with next := f }
  | .prev     => { s with prev := f }
  | .nextFree => { s with nextFree := f }
  | .prevFree => { s with prevFree := f }

/-- The heads, and the pointers that fields were read and written through. -/
structure Walk where
  heads   : Buffers
  through : List (Option Nat)

/-- Code that follows pointers; `none` is a panic. -/
abbrev Through := StateT Walk Option

/-- `p->l`. -/
def loadLink (l : Link) (p : Option Nat) : Through (Option Nat) :=
  fun w => some (p.bind (w.heads.link l), { w with through := p :: w.through })

/-- `p->l = v`. -/
def storeLink (l : Link) (p v : Option Nat) : Through Unit :=
  fun w => some ((), ⟨w.heads.setLink l (assign (w.heads.link l) p v), p :: w.through⟩)

/-- Fields of `bh` that are not pointers are read, or set with `f`. -/
def setFields (bh : Nat) (f : Buffers → Buffers) : Through Unit :=
  fun w => some ((), ⟨f w.heads, some bh :: w.through⟩)

/-- A value that no pointer leads to: `free_list`, or an entry of the hash
table. -/
def readGlobal {α : Type} (f : Buffers → α) : Through α := fun w => some (f w.heads, w)

def setGlobal (f : Buffers → Buffers) : Through Unit :=
  fun w => some ((), { w with heads := f w.heads })

/-- `_hashfn(bh->b_dev, bh->b_blocknr)`. -/
def hashOf (bh : Nat) : Through Nat := do
  setFields bh id
  readGlobal fun s => hashfn (s.dev bh) (s.blocknr bh)

/-- `if (bh->l) bh->l->l' = bh->l'`. -/
def bypass (l l' : Link) (bh : Nat) : Through Unit := do
  if (← loadLink l bh).isSome then
    storeLink l' (← loadLink l bh) (← loadLink l' bh)

/-- `if (hash(bh) == bh) hash(bh) = bh->b_next`. -/
def unhash (bh : Nat) : Through Unit := do
  let h ← hashOf bh
  if (← readGlobal fun s => s.hashTable h) = some bh then
    let next ← loadLink .next bh
    setGlobal fun s => { s with hashTable := Function.update s.hashTable h next }

/-- The free list part of `remove_from_queues`; `none` is the panic "Free block
list corrupted". -/
def unlinkFree (bh : Nat) : Through Unit := do
  if (← loadLink .prevFree bh).isNone then failure
  if (← loadLink .nextFree bh).isNone then failure
  storeLink .nextFree (← loadLink .prevFree bh) (← loadLink .nextFree bh)
  storeLink .prevFree (← loadLink .nextFree bh) (← loadLink .prevFree bh)
  if (← readGlobal fun s => s.freeList) = some bh then
    let next ← loadLink .nextFree bh
    setGlobal fun s => { s with freeList := next }

/-- `remove_from_queues`. -/
def removeFromQueuesThrough (bh : Nat) : Through Unit := do
  -- remove from hash-queue
  bypass .next .prev bh
  bypass .prev .next bh
  unhash bh
  -- remove from free list
  unlinkFree bh

/-- The free list part of `insert_into_queues`. -/
def linkFree (bh : Nat) : Through Unit := do
  storeLink .nextFree bh (← readGlobal fun s => s.freeList)
  storeLink .prevFree bh (← loadLink .prevFree (← readGlobal fun s => s.freeList))
  storeLink .nextFree (← loadLink .prevFree (← readGlobal fun s => s.freeList)) (some bh)
  storeLink .prevFree (← readGlobal fun s => s.freeList) (some bh)

/-- `insert_into_queues`. -/
def insertIntoQueuesThrough (bh : Nat) : Through Unit := do
  -- put at end of free list
  linkFree bh
  -- put the buffer in new hash-queue if it has a device
  storeLink .prev bh none
  storeLink .next bh none
  setFields bh id
  if (← readGlobal fun s => s.dev bh) ≠ 0 then
    let h ← hashOf bh
    storeLink .next bh (← readGlobal fun s => s.hashTable h)
    setGlobal fun s => { s with hashTable := Function.update s.hashTable h (some bh) }
    -- nobody looks whether the bucket was empty
    storeLink .prev (← loadLink .next bh) (some bh)

/-- The end of `getblk`. -/
def takeoverThrough (bh : Nat) (dev : UInt16) (block : UInt32) : Through Unit := do
  setFields bh fun s => { s with count := Function.update s.count bh 1 }
  setFields bh fun s => { s with dirt := Function.update s.dirt bh false }
  setFields bh fun s => { s with uptodate := Function.update s.uptodate bh false }
  removeFromQueuesThrough bh
  setFields bh fun s => { s with dev := Function.update s.dev bh dev }
  setFields bh fun s => { s with blocknr := Function.update s.blocknr bh block }
  insertIntoQueuesThrough bh

/-! ## Running the code -/

/-- From heads `s` the code goes through the pointers `t` and leaves heads
`s'`. -/
def Runs (x : Through Unit) (s : Buffers) (t : List (Option Nat)) (s' : Buffers) : Prop :=
  ∀ l, x ⟨s, l⟩ = some ((), ⟨s', t ++ l⟩)

variable {s s' s'' : Buffers} {t t' : List (Option Nat)} {bh : Nat}

theorem Runs.bind {x y : Through Unit} (hx : Runs x s t s') (hy : Runs y s' t' s'') :
    Runs (x >>= fun _ => y) s (t' ++ t) s'' := by
  intro l
  have h : (x >>= fun _ => y) ⟨s, l⟩ = (x ⟨s, l⟩).bind fun p => y p.2 := rfl
  rw [h, hx l, List.append_assoc]
  exact hy (t ++ l)

theorem runs_setFields (bh : Nat) (f : Buffers → Buffers) (s : Buffers) :
    Runs (setFields bh f) s [some bh] (f s) := fun _ => rfl

/-- A neighbour that is missing is not gone through. -/
theorem runs_bypass (l l' : Link) (bh : Nat) (s : Buffers) :
    ∃ t, Runs (bypass l l' bh) s t
      (s.setLink l' (assign (s.link l') (s.link l bh) (s.link l' bh))) ∧ none ∉ t := by
  cases h : s.link l bh with
  | none =>
    refine ⟨[some bh], fun w => ?_, by simp⟩
    have hself : s.setLink l' (assign (s.link l') none (s.link l' bh)) = s := by
      cases l' <;> rfl
    rw [hself]
    simp [bypass, bind, StateT.bind, loadLink, h]
    rfl
  | some p =>
    refine ⟨[some p, some bh, some bh, some bh], fun w => ?_, by simp⟩
    simp [bypass, bind, StateT.bind, loadLink, storeLink, h]

theorem runs_unhash (bh : Nat) (s : Buffers) :
    ∃ t, Runs (unhash bh) s t { s with
      hashTable := if s.hashTable (hashfn (s.dev bh) (s.blocknr bh)) = some bh then
          Function.update s.hashTable (hashfn (s.dev bh) (s.blocknr bh)) (s.next bh)
        else s.hashTable } ∧ none ∉ t := by
  by_cases h : s.hashTable (hashfn (s.dev bh) (s.blocknr bh)) = some bh
  · refine ⟨[some bh, some bh], fun w => ?_, by simp⟩
    simp [unhash, hashOf, bind, StateT.bind, setFields, readGlobal, loadLink, setGlobal,
      h, Buffers.link]
  · refine ⟨[some bh], fun w => ?_, by simp⟩
    simp [unhash, hashOf, bind, StateT.bind, setFields, readGlobal, h]
    rfl

/-- Both neighbours on the free list were looked at, and stay. -/
theorem runs_unlinkFree (hp : s.prevFree bh ≠ none) (hq : s.nextFree bh ≠ none) :
    let nextFree' := assign s.nextFree (s.prevFree bh) (s.nextFree bh)
    ∃ t, Runs (unlinkFree bh) s t { s with
      nextFree := nextFree'
      prevFree := assign s.prevFree (nextFree' bh) (s.prevFree bh)
      freeList := if s.freeList = some bh then nextFree' bh else s.freeList } ∧ none ∉ t := by
  obtain ⟨p, hp⟩ := Option.ne_none_iff_exists'.mp hp
  obtain ⟨q, hq⟩ := Option.ne_none_iff_exists'.mp hq
  have hnext : assign s.nextFree (some p) (some q) bh = some q := by
    by_cases hpb : p = bh
    · rw [hpb, assign_self]
    · rw [assign_of_ne (by simpa using hpb), hq]
  by_cases hf : s.freeList = some bh
  · refine ⟨[some bh, some q, some bh, some bh, some p, some bh, some bh, some bh, some bh],
      fun w => ?_, by simp⟩
    simp [unlinkFree, bind, StateT.bind, loadLink, storeLink, readGlobal, setGlobal, Buffers.link,
      Buffers.setLink, hp, hq, hf, hnext]
  · refine ⟨[some q, some bh, some bh, some p, some bh, some bh, some bh, some bh],
      fun w => ?_, by simp⟩
    simp [unlinkFree, bind, StateT.bind, loadLink, storeLink, readGlobal, Buffers.link,
      Buffers.setLink, hp, hq, hf, hnext]
    rfl

/-- **`remove_from_queues`** never goes through a null pointer. -/
theorem removeFromQueuesThrough_spec (h : removeFromQueues bh s = some s') :
    ∃ t, Runs (removeFromQueuesThrough bh) s t s' ∧ none ∉ t := by
  simp only [removeFromQueues] at h
  split at h
  · cases h
  · next hnull =>
    have hs' := Option.some.inj h
    obtain ⟨hp, hq⟩ := not_or.mp hnull
    obtain ⟨t₁, h₁, n₁⟩ := runs_bypass .next .prev bh s
    obtain ⟨t₂, h₂, n₂⟩ := runs_bypass .prev .next bh
      (s.setLink .prev (assign s.prev (s.next bh) (s.prev bh)))
    obtain ⟨t₃, h₃, n₃⟩ := runs_unhash bh
      ((s.setLink .prev (assign s.prev (s.next bh) (s.prev bh))).setLink .next
        (assign s.next (assign s.prev (s.next bh) (s.prev bh) bh) (s.next bh)))
    obtain ⟨t₄, h₄, n₄⟩ := runs_unlinkFree (s := { s with
      prev := assign s.prev (s.next bh) (s.prev bh)
      next := assign s.next (assign s.prev (s.next bh) (s.prev bh) bh) (s.next bh)
      hashTable := if s.hashTable (hashfn (s.dev bh) (s.blocknr bh)) = some bh then
          Function.update s.hashTable (hashfn (s.dev bh) (s.blocknr bh))
            (assign s.next (assign s.prev (s.next bh) (s.prev bh) bh) (s.next bh) bh)
        else s.hashTable }) hp hq
    refine ⟨t₄ ++ t₃ ++ t₂ ++ t₁, ?_, by simp [n₁, n₂, n₃, n₄]⟩
    rw [← hs']
    exact h₁.bind (h₂.bind (h₃.bind h₄))

/-- The new last head is linked to the old one and to the first; the free list
is not empty. -/
theorem runs_linkFree (bh : Nat) {f z : Nat} (hf : s.freeList = some f) (hz : s.prevFree f = some z) :
    ∃ t, Runs (linkFree bh) s t { s with
      nextFree := assign (Function.update s.nextFree bh s.freeList)
        (s.freeList.bind (Function.update s.prevFree bh (s.freeList.bind s.prevFree))) (some bh)
      prevFree := assign (Function.update s.prevFree bh (s.freeList.bind s.prevFree)) s.freeList
        (some bh) } ∧ none ∉ t := by
  have hz' : Function.update s.prevFree bh (some z) f = some z := by
    by_cases hfb : f = bh
    · rw [hfb, Function.update_self]
    · rw [Function.update_of_ne hfb, hz]
  refine ⟨[some f, some z, some f, some bh, some f, some bh], fun w => ?_, by simp⟩
  simp [linkFree, bind, StateT.bind, loadLink, storeLink, readGlobal, Buffers.link, Buffers.setLink,
    assign, hf, hz, hz']

/-- **`insert_into_queues`** goes through a null pointer exactly when the head
has a device and its bucket was empty. -/
theorem insertIntoQueuesThrough_spec (bh : Nat) {f z : Nat} (hf : s.freeList = some f)
    (hz : s.prevFree f = some z) :
    ∃ t, Runs (insertIntoQueuesThrough bh) s t (insertIntoQueues bh s) ∧
      (none ∈ t ↔ s.dev bh ≠ 0 ∧ s.hashTable (hashfn (s.dev bh) (s.blocknr bh)) = none) := by
  obtain ⟨t₁, h₁, n₁⟩ := runs_linkFree bh hf hz
  by_cases hd : s.dev bh = 0
  · refine ⟨[some bh, some bh, some bh] ++ t₁, h₁.bind fun w => ?_, by simp [hd, n₁]⟩
    simp [bind, StateT.bind, setFields, storeLink, readGlobal, Buffers.link, Buffers.setLink,
      assign, insertIntoQueues, hd]
    rfl
  · refine ⟨[s.hashTable (hashfn (s.dev bh) (s.blocknr bh)), some bh, some bh, some bh, some bh,
      some bh, some bh] ++ t₁, h₁.bind fun w => ?_, ?_⟩
    · simp [bind, StateT.bind, setFields, storeLink, readGlobal, loadLink, setGlobal, hashOf,
        Buffers.link, Buffers.setLink, assign, insertIntoQueues, hd]
    · simp [hd, n₁, eq_comm]

/-! ## A takeover -/

variable {order : List Nat} {chain : Nat → List Nat} {dev : UInt16} {block : UInt32}

/-- Once `bh` is off its queues the free list still has a first and a last
head. -/
theorem Removed.first_last (R : Removed s order chain bh s') (Q : Queues s order chain) :
    ∃ f z, s'.freeList = some f ∧ s'.prevFree f = some z := by
  by_cases halone : order = [bh]
  · obtain ⟨-, hz, hf⟩ := R.alone halone
    exact ⟨bh, bh, hf, hz⟩
  · obtain ⟨hring, hfirst⟩ := R.ring halone
    have hnot : bh ∉ order.erase bh := fun h => (Q.nodup.mem_erase_iff.mp h).1 rfl
    cases he : order.erase bh with
    | nil =>
      rw [he] at hring
      exact hring.elim
    | cons f l =>
      rw [he] at hring hfirst hnot
      have hnd : (f :: l).Nodup := he ▸ Q.nodup.erase bh
      obtain ⟨z, hz, -, -⟩ := ring_insert hring hnd hnot
      exact ⟨f, z, hfirst, hz⟩

/-- The bucket `bh` is put into is empty if no other head is in it. -/
theorem Removed.bucket_empty (R : Removed s order chain bh s') (Q : Queues s order chain)
    {k : Nat} (hk : k < nrHash) : s'.hashTable k = none ↔
      ∀ x, x < s.nrBuffers → x ≠ bh → s.dev x ≠ 0 → hashfn (s.dev x) (s.blocknr x) ≠ k := by
  rw [(R.chains k hk).head, List.head?_eq_none_iff, List.eq_nil_iff_forall_not_mem]
  constructor
  · intro h x hx hne hd hkx
    have hmem : x ∈ chain k := (Q.hashed k x).mpr ⟨hx, hd, hkx⟩
    exact h x ((Q.nodups k).mem_erase_iff.mpr ⟨hne, hmem⟩)
  · intro h x hmem
    obtain ⟨hne, hx⟩ := (Q.nodups k).mem_erase_iff.mp hmem
    obtain ⟨hlt, hd, hkx⟩ := (Q.hashed k x).mp hx
    exact h x hlt hne hd hkx

/-- **A takeover** does to the heads what `takeover` says, and goes through a
null pointer exactly when the head gets a device and no other head is in the
new bucket. -/
theorem takeoverThrough_spec (Q : Queues s order chain) (hbh : bh < s.nrBuffers) (dev : UInt16)
    (block : UInt32) :
    ∃ t s', takeover bh dev block s = some s' ∧ Runs (takeoverThrough bh dev block) s t s' ∧
      (none ∈ t ↔ dev ≠ 0 ∧ ∀ x, x < s.nrBuffers → x ≠ bh → s.dev x ≠ 0 →
        hashfn (s.dev x) (s.blocknr x) ≠ hashfn dev block) := by
  set s₀ : Buffers := { s with
    count := Function.update s.count bh 1
    dirt := Function.update s.dirt bh false
    uptodate := Function.update s.uptodate bh false } with hs₀
  have Q₀ : Queues s₀ order chain :=
    ⟨Q.nodup, Q.mem, Q.ring, Q.first, Q.chains, Q.nodups, Q.hashed, Q.free, Q.unique⟩
  obtain ⟨s₁, he, R⟩ := removeFromQueues_spec Q₀ hbh
  set s₂ : Buffers := { s₁ with
    dev := Function.update s₁.dev bh dev
    blocknr := Function.update s₁.blocknr bh block } with hs₂
  have hd₂ : s₂.dev bh = dev := Function.update_self ..
  have hb₂ : s₂.blocknr bh = block := Function.update_self ..
  obtain ⟨f, z, hf, hz⟩ := R.first_last Q₀
  obtain ⟨t₁, h₁, n₁⟩ := removeFromQueuesThrough_spec he
  obtain ⟨t₂, h₂, n₂⟩ := insertIntoQueuesThrough_spec (s := s₂) bh hf hz
  refine ⟨t₂ ++ [some bh] ++ [some bh] ++ t₁ ++ [some bh] ++ [some bh] ++ [some bh],
    insertIntoQueues bh s₂, ?_, ?_, ?_⟩
  · show (removeFromQueues bh s₀).map _ = _
    rw [he]
    rfl
  · exact (runs_setFields bh _ s).bind ((runs_setFields bh _ _).bind ((runs_setFields bh _ _).bind
      (h₁.bind ((runs_setFields bh _ s₁).bind ((runs_setFields bh _ _).bind h₂)))))
  · rw [hd₂, hb₂] at n₂
    have hempty : s₂.hashTable (hashfn dev block) = none ↔ _ :=
      R.bucket_empty Q₀ (hashfn_lt dev block)
    rw [hempty] at n₂
    simp [n₁, n₂, hs₀]

/-- The next action of the running task is a takeover. -/
def AboutToTakeOver (c : Config Cache Tag Proc Ret) (bh : Nat) (dev : UInt16) (block : UInt32) :
    Prop :=
  ∃ t, c.running = some t ∧ tagOf (c.tasks t) = some (.takeover bh dev block)

/-- The head that is taken over is on the queues of the machine. -/
theorem AboutToTakeOver.queues {n : Nat} (hn : 0 < n) {s : Cache} {c : Config Cache Tag Proc Ret}
    (h : cacheKernel.Reach (fun _ _ => True) (Config.idle (s.boot n)) c)
    (ht : AboutToTakeOver c bh dev block) :
    ∃ order chain, Queues c.shared.buf order chain ∧ c.shared.buf.nrBuffers = n ∧ bh < n := by
  obtain ⟨G, hG⟩ := good_cache hn s h
  obtain ⟨⟨hnr, order, chain, Q⟩, -⟩ := hG.inv
  obtain ⟨i, hr, htag⟩ := ht
  refine ⟨order, chain, Q, hnr, ?_⟩
  cases hp : c.tasks i with
  | act tag u next =>
    rw [hp] at htag
    cases htag
    have T : TakesOver n bh dev block c.shared (u c.shared) :=
      hG.check hr hp fun _ _ => trivial
    exact T.head
  | _ =>
    rw [hp] at htag
    cases htag

/-- **Which takeovers go through null.** Whenever a task of a running machine is
about to take head `bh` over for `(dev, block)`, the code runs through without
a panic, and leaves the heads the machine goes on with; it goes through no null
pointer if and only if the head gets no device or another head is already in
the bucket of the block. -/
theorem getblk_through_null {n : Nat} (hn : 0 < n) (s : Cache) {c : Config Cache Tag Proc Ret}
    (h : cacheKernel.Reach (fun _ _ => True) (Config.idle (s.boot n)) c)
    (ht : AboutToTakeOver c bh dev block) :
    ∃ t s', Runs (takeoverThrough bh dev block) c.shared.buf t s' ∧
      (c.shared.takeover bh dev block).buf = s' ∧
      (none ∉ t ↔ dev = 0 ∨ ∃ x, x < n ∧ x ≠ bh ∧ c.shared.buf.dev x ≠ 0 ∧
        hashfn (c.shared.buf.dev x) (c.shared.buf.blocknr x) = hashfn dev block) := by
  obtain ⟨order, chain, Q, hnr, hbh⟩ := ht.queues hn h
  obtain ⟨t, s', hs', hrun, hnull⟩ :=
    takeoverThrough_spec Q (hnr ▸ hbh) dev block
  refine ⟨t, s', hrun, ?_, ?_⟩
  · simp [Cache.takeover, hs']
  · rw [hnull, hnr]
    simp only [not_and_or, not_forall, not_not]
    simp only [exists_prop, ne_eq]

/-- What a script leads to on a machine with two buffers. -/
def playGetblks (script : List (Move Cache Tag Proc Ret Unit)) :
    Option (Config Cache Tag Proc Ret) :=
  cacheKernel.play (fun _ _ => true) (fun _ _ => none) script (Config.idle (zeroCache.boot 2))

/-- The first `getblk` of a machine with two buffers, for block 7 of device
0x301, goes through a null pointer: every bucket is empty. -/
theorem getblk_through_null_first : ∃ c,
    cacheKernel.Reach (fun _ _ => True) (Config.idle (zeroCache.boot 2)) c ∧
      AboutToTakeOver c 0 0x301 7 ∧
      ∃ t s', Runs (takeoverThrough 0 0x301 7) c.shared.buf t s' ∧ none ∈ t := by
  let script : List (Move Cache Tag Proc Ret Unit) :=
    [.start 0 (getblk 0x301 7).toProg, .wake 0, .run 15]
  have hplay : (playGetblks script).map (fun c =>
      (c.running, tagOf (c.tasks 0), c.shared.buf.dev 1)) =
        some (some 0, some (.takeover 0 0x301 7), 0) := by
    rfl
  have hops : ∀ q ∈ programs script, cacheKernel.ops q.1 q.2 := by
    rintro q (_ | ⟨_, ⟨⟩⟩)
    exact .getblk 0x301 7
  obtain ⟨c, hreach, hrun⟩ := exists_reach (fun _ _ _ => trivial) (by simp) hops hplay
  simp only [Prod.mk.injEq] at hrun
  obtain ⟨hr, htag, hdev⟩ := hrun
  have ht : AboutToTakeOver c 0 0x301 7 := ⟨0, hr, htag⟩
  obtain ⟨order, chain, Q, hnr, -⟩ := ht.queues (by decide) hreach
  obtain ⟨t, s', -, hthrough, hnull⟩ :=
    takeoverThrough_spec Q (show 0 < _ by omega) 0x301 7
  refine ⟨c, hreach, ht, t, s', hthrough, hnull.mpr ⟨by decide, ?_⟩⟩
  intro x hx hx0 hd
  obtain rfl : x = 1 := by omega
  exact absurd hdev hd

/-- Block 1848 of device 0x301 is in the bucket of block 7: after a `getblk` of
the one, a `getblk` of the other goes through no null pointer. -/
theorem getblk_through_null_second : ∃ c,
    cacheKernel.Reach (fun _ _ => True) (Config.idle (zeroCache.boot 2)) c ∧
      AboutToTakeOver c 1 0x301 1848 ∧
      ∃ t s', Runs (takeoverThrough 1 0x301 1848) c.shared.buf t s' ∧ none ∉ t := by
  let script : List (Move Cache Tag Proc Ret Unit) :=
    [.start 0 (getblk 0x301 7).toProg, .wake 0, .run 30, .rest,
      .start 0 (getblk 0x301 1848).toProg, .wake 0, .run 15]
  have hplay : (playGetblks script).map (fun c =>
      (c.running, tagOf (c.tasks 0), c.shared.buf.dev 0, c.shared.buf.blocknr 0)) =
        some (some 0, some (.takeover 1 0x301 1848), 0x301, 7) := by
    rfl
  have hops : ∀ q ∈ programs script, cacheKernel.ops q.1 q.2 := by
    rintro q (_ | ⟨_, _ | ⟨_, ⟨⟩⟩⟩)
    · exact .getblk 0x301 7
    · exact .getblk 0x301 1848
  obtain ⟨c, hreach, hrun⟩ := exists_reach (fun _ _ _ => trivial) (by simp) hops hplay
  simp only [Prod.mk.injEq] at hrun
  obtain ⟨hr, htag, hdev, hblk⟩ := hrun
  have ht : AboutToTakeOver c 1 0x301 1848 := ⟨0, hr, htag⟩
  obtain ⟨t, s', hthrough, -, hnull⟩ := getblk_through_null (by decide) zeroCache hreach ht
  refine ⟨c, hreach, ht, t, s', hthrough, hnull.mpr (Or.inr ⟨0, by decide, by decide, ?_, ?_⟩)⟩
  · rw [hdev]
    decide
  · rw [hdev, hblk]
    decide

end Linux011.Fs
