import Linux011.Fs.CacheSpec

/-!
# Buffer cache — any number of tasks

`getblk` under any interleaving: tasks read, write, release and write back
buffers, switch wherever the code sleeps, and requests end at any time, with or
without success.

Main results:

* `starts_plain` — every call a task may make keeps the queues;
* `getblk_takes_free_buffer` — what is true whenever a head is taken over.
-/

namespace Linux011.Fs

open Linux011.Lib
open Linux011.Lib.Kernel

/-- No payload: only the queues are kept. -/
def plain (N : Nat) : Payload N True where
  inv _ _ := True
  allow _ _ := True
  ready _ _ := True
  queued _ _ _ := True
  copied _ _ _ _ _ _ _ := True
  rest _ := True
  invalidates := True
  overwrites := True
  core _ := True
  reads _ _ := True
  driver _ := True
  inv_core _ _ := trivial
  core_reads _ := trivial
  inv_driver _ _ _ _ := trivial
  env _ _ _ := trivial
  ready_env _ _ _ := trivial
  ready_intro _ _ _ := trivial
  acquire _ _ _ _ _ _ _ := trivial
  release _ _ := trivial
  lock _ _ _ _ := trivial
  useful _ _ _ _ := trivial
  unlock _ _ := trivial
  promise _ _ _ := trivial
  request _ _ _ _ _ := trivial
  takeover _ _ _ _ _ _ _ _ _ _ _ := trivial
  copyIn _ _ _ _ _ _ _ _ _ := trivial
  copyOut _ _ _ _ _ _ _ := trivial
  putInode _ _ _ _ _ := trivial
  invalidate _ _ := trivial

/-- What a task may do with the cache. `change` is what a holder of a buffer
does to it: some bytes are changed and the buffer is marked dirty. -/
inductive CacheOp : Prog Cache Tag Proc Ret → Prop
  | getblk (dev : UInt16) (block : UInt32) : CacheOp (getblk dev block).toProg
  | bread (dev : UInt16) (block : UInt32) : CacheOp (bread dev block).toProg
  | breada (dev : UInt16) (first : UInt32) (args : List UInt32) :
      CacheOp (breada dev first args).toProg
  | brelse (bh : Nat) : CacheOp (brelse bh).toProg
  | change (bh i v : Nat) : CacheOp (Code.modify fun s => s.putInode bh i v : M Unit).toProg
  | syncDev (dev : UInt16) : CacheOp (syncDev dev).toProg
  | sysSync : CacheOp sysSync.toProg
  | invalidate (dev : UInt16) : CacheOp (Code.call (Proc.invalidate dev 0) : M Ret).toProg
  | blockRead (dev : UInt16) (pos : UInt32) (count : Nat) : CacheOp (blockRead dev pos count).toProg
  | blockWrite (dev : UInt16) (pos : UInt32) (buf : List UInt8) :
      CacheOp (blockWrite dev pos buf).toProg

/-- Tasks that share a cache. -/
def cacheKernel : Kernel Cache Tag Proc Ret := kernel True fun _ p => CacheOp p

/-- The cache at start-up, with `n` buffers over whatever memory held. -/
def Cache.boot (n : Nat) (s : Cache) : Cache :=
  { s with buf := bufferInit n s.buf, request := fun _ => none }

variable {n : Nat}

theorem sysSync_spec {N : Nat} {fails : Prop} {P : Payload N fails}
    {ops : Nat → Prog Cache Tag Proc Ret → Prop} {L : List Ref} (hL : L.length ≤ 1) :
    Holds (contract P ops) n sysSync (fun g _ => g = holding L) (fun _ g _ => g = holding L) := by
  refine holds_bind ((call_spec n (.syncInodes 0) L).pre fun _ _ h => ⟨h, hL⟩) fun _ => ?_
  exact holds_bind (call_spec n (.syncPass none 0) L) fun _ => holds_pure fun _ _ _ _ h => h

/-- Every call keeps the queues. -/
theorem starts_plain : Starts (contract (plain n) fun _ p => CacheOp p) := by
  -- the invariant does not look at ghosts: a task may start with any
  have hstart : ∀ {t : Nat} {α : Type} {x : M α} {g : Hold} {Q : α → Hold → Cache → Prop},
      (∀ m, Holds (contract (plain n) fun _ p => CacheOp p) m x (fun g' _ => g' = g) Q) →
      ∀ G s, (contract (plain n) fun _ p => CacheOp p).inv G s →
        Begins (contract (plain n) fun _ p => CacheOp p) t G s x.toProg := by
    intro t α x g Q hx G s hi
    exact Holds.begins hx ⟨hi.1, trivial⟩ (fun _ => rfl) fun _ _ _ _ _ _ => trivial
  have hcall : ∀ m p L, Holds (contract (plain n) fun _ p => CacheOp p) m (Code.call p)
      (Pre (plain n) p L) (Post n p L) := fun m p L => call_spec m p L
  have hnil : ([] : List Ref).length ≤ 1 := Nat.zero_le 1
  have hmod : ∀ pos : UInt32, pos.toNat % blockSize ≤ blockSize := fun pos =>
    Nat.le_of_lt (Nat.mod_lt _ (by decide))
  intro t p hp G s hi _
  cases hp with
  | getblk dev block =>
    exact hstart (fun m => getblk_spec (hcall m) dev block hnil) G s hi
  | bread dev block =>
    exact hstart (fun m => bread_spec (hcall m) dev block hnil trivial) G s hi
  | breada dev first args =>
    exact hstart (fun m => breada_spec (hcall m) dev first args trivial) G s hi
  | brelse bh =>
    exact hstart (fun m => brelse_spec (hcall m) ⟨bh, 0, 0⟩ []) G s hi
  | change bh i v =>
    refine hstart (g := holding []) (Q := fun _ _ _ => True) (fun m => ?_) G s hi
    refine holds_change (stable_ghost _) (fun _ => rfl) ?_
    exact fun G t s _ _ _ => ⟨G t, trivial, trivial⟩
  | syncDev dev =>
    exact hstart (fun m => syncDev_spec (hcall m) dev hnil) G s hi
  | sysSync => exact hstart (fun m => sysSync_spec hnil) G s hi
  | invalidate dev =>
    exact hstart (g := holding []) (fun m => (hcall m (.invalidate dev 0) []).pre
      fun _ _ h => ⟨h, trivial⟩) G s hi
  | blockRead dev pos count =>
    exact hstart (g := holding []) (fun m => (hcall m (.blockRead dev _ _ pos count 0) []).pre
      fun _ _ h => ⟨h, rfl, hmod pos, fun _ => trivial⟩) G s hi
  | blockWrite dev pos buf =>
    exact hstart (g := holding []) (fun m => (hcall m (.blockWrite dev _ _ pos buf 0) []).pre
      fun _ _ h => ⟨h, rfl, hmod pos, trivial, fun _ => trivial⟩) G s hi

theorem shape_boot (hn : 0 < n) (s : Cache) : Shape n (s.boot n) :=
  ⟨(initHeads n { s.buf with nrBuffers := n }).1, _, _, queues_bufferInit hn s.buf⟩

/-- Every reachable configuration keeps the queues, and the next action is one
the contract allows. -/
theorem good_cache (hn : 0 < n) (s : Cache) {c : Config Cache Tag Proc Ret}
    (h : cacheKernel.Reach (fun _ _ => True) (Config.idle (s.boot n)) c) :
    ∃ G, Good (contract (plain n) fun _ p => CacheOp p) 1 G c :=
  reach_idle starts_plain (G := fun _ => holding []) ⟨shape_boot hn s, trivial⟩
    (fun _ => trivial) h

/-- **`getblk` under any interleaving.** In every state that tasks sharing the
cache can reach, no two heads carry the same block of a device other than 0;
when `getblk` is about to take head `bh` over for `(dev, block)`, the head has
no users, is not locked and not dirty, and no head is cached for the block; and
no step reassigns a head that has users, is locked or is dirty. -/
theorem getblk_takes_free_buffer (hn : 0 < n) (s : Cache) {c : Config Cache Tag Proc Ret}
    (h : cacheKernel.Reach (fun _ _ => True) (Config.idle (s.boot n)) c) :
    (∀ x y, x < n → y < n → c.shared.buf.dev x ≠ 0 → c.shared.buf.dev x = c.shared.buf.dev y →
      c.shared.buf.blocknr x = c.shared.buf.blocknr y → x = y) ∧
    (∀ t bh dev block, c.running = some t → tagOf (c.tasks t) = some (.takeover bh dev block) →
      bh < n ∧ c.shared.buf.count bh = 0 ∧ c.shared.buf.lock bh = false ∧
      c.shared.buf.dirt bh = false ∧ findBuffer c.shared.buf dev block = some none ∧
      (dev ≠ 0 → ∀ x, x < n → ¬ (c.shared.buf.dev x = dev ∧ c.shared.buf.blocknr x = block))) ∧
    ∀ c', cacheKernel.Step (fun _ _ => True) c c' → ∀ x,
      (c'.shared.buf.dev x ≠ c.shared.buf.dev x ∨
        c'.shared.buf.blocknr x ≠ c.shared.buf.blocknr x) →
      c.shared.buf.count x = 0 ∧ c.shared.buf.lock x = false ∧ c.shared.buf.dirt x = false := by
  obtain ⟨G, hG⟩ := good_cache hn s h
  obtain ⟨⟨hnr, order, chain, Q⟩, -⟩ := hG.inv
  refine ⟨?_, ?_, ?_⟩
  · intro x y hx hy hd hdev hblk
    rw [← hnr] at hx hy
    exact Q.unique x y hx hy hd hdev hblk
  · intro t bh dev block hr ht
    cases hp : c.tasks t with
    | act tag u next =>
      rw [hp] at ht
      cases ht
      have T : TakesOver n bh dev block c.shared (u c.shared) :=
        hG.check hr hp fun _ _ => trivial
      refine ⟨T.head, T.count, T.lock, T.dirt, T.absent, ?_⟩
      intro hdev x hx
      rw [← hnr] at hx
      exact ((findBuffer_eq_none Q).mp T.absent).resolve_left hdev x hx
    | _ =>
      rw [hp] at ht
      cases ht
  · intro c' hs x hx
    have hsame : SameKeys c.shared c'.shared → False := by
      rintro ⟨hd, hb⟩
      rw [hd, hb] at hx
      exact hx.elim (fun h => h rfl) fun h => h rfl
    cases hs with
    | @act t tag u next hr ht ha =>
      have hcheck := hG.check hr ht fun _ _ => trivial
      rcases tag with _ | (⟨bh, dev, block⟩ | _ | _ | _)
      · exact (hsame hcheck).elim
      · have T : TakesOver n bh dev block c.shared (u c.shared) := hcheck
        by_cases hxb : x = bh
        · subst hxb
          exact ⟨T.count, T.lock, T.dirt⟩
        · obtain ⟨h1, h2⟩ := T.others x hxb
          rcases hx with h' | h'
          · exact absurd h1 h'
          · exact absurd h2 h'
      · exact (hsame hcheck.1).elim
      · exact (hsame hcheck).elim
      · exact (hsame hcheck.1).elim
    | interrupt s' he => exact (hsame (sameKeys_of_eq (queues_completes he))).elim
    | _ => exact (hsame ⟨rfl, rfl⟩).elim

/-- A cache in memory full of zeros, on a machine with a hard disk driver. -/
def zeroCache : Cache where
  buf := zeroBuffers
  data := fun _ _ => 0
  request := fun _ => none
  requestFn := fun major => major = 3
  mounted := fun _ => false
  disk := fun _ _ _ => 0
  last := fun _ _ => 0

/-- Two tasks want block 7 of device 0x301; the first is about to take the
first head over, which is free. -/
theorem getblk_takes_free_buffer_two_tasks : ∃ c,
    cacheKernel.Reach (fun _ _ => True) (Config.idle (zeroCache.boot 2)) c ∧
      c.running = some 0 ∧ tagOf (c.tasks 0) = some (.takeover 0 0x301 7) ∧
      c.shared.buf.count 0 = 0 ∧ findBuffer c.shared.buf 0x301 7 = some none := by
  let script : List (Move Cache Tag Proc Ret Unit) :=
    [.start 0 (getblk 0x301 7).toProg, .start 1 (getblk 0x301 7).toProg, .wake 0, .run 15]
  have hplay : ((cacheKernel.play (fun _ _ => true) (fun (_ : Unit) _ => none) script
      (Config.idle (zeroCache.boot 2))).map fun c => (c.running, tagOf (c.tasks 0))) =
        some (some 0, some (.takeover 0 0x301 7)) := by
    rfl
  have hops : ∀ q ∈ programs script, cacheKernel.ops q.1 q.2 := by
    rintro q (_ | ⟨_, _ | ⟨_, ⟨⟩⟩⟩)
    · exact .getblk 0x301 7
    · exact .getblk 0x301 7
  obtain ⟨c, hreach, hrun⟩ := exists_reach (fun _ _ _ => trivial) (by simp) hops hplay
  obtain ⟨hr, ht⟩ := Prod.mk.inj hrun
  obtain ⟨-, htake, -⟩ := getblk_takes_free_buffer (by decide) zeroCache hreach
  obtain ⟨-, hcount, -, -, habsent, -⟩ := htake 0 0 0x301 7 hr ht
  exact ⟨c, hreach, hr, ht, hcount, habsent⟩

end Linux011.Fs
