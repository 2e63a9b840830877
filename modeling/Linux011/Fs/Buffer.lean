import Linux011.Lib.Links
import Mathlib.Data.List.Dedup
import Mathlib.Data.List.Perm.Subperm
import Mathlib.Data.List.Range

/-!
# Buffer cache — the queues of `fs/buffer.c`

Buffer heads are numbered from `start_buffer` on; `s.next bh` is
`bh->b_next`, a null pointer is `none`. All heads are on the circular free
list, those with a device also on the hash chain of their block.

`insert_into_queues` stores through `bh->b_next` without looking whether it is
null; such a store is taken to have no effect on the state.

* `takeover_queues` — one takeover of `getblk` keeps the shape of the queues
  and moves the head to the end of the free list;
* `queues_run` — the shape after any sequence of takeovers;
* `findBuffer_eq_some`, `findBuffer_eq_none` — what a lookup finds.
-/

namespace Linux011.Fs

open Linux011.Lib

/-- The buffer heads, the hash table and the free list. `count` is an unsigned
char, the flags hold 0 or 1. -/
structure Buffers where
  nrBuffers : Nat
  dev       : Nat → UInt16
  blocknr   : Nat → UInt32
  uptodate  : Nat → Bool
  dirt      : Nat → Bool
  count     : Nat → Nat
  lock      : Nat → Bool
  prev      : Nat → Option Nat
  next      : Nat → Option Nat
  prevFree  : Nat → Option Nat
  nextFree  : Nat → Option Nat
  hashTable : Nat → Option Nat
  freeList  : Option Nat

def nrHash : Nat := 307

/-- `_hashfn`. -/
def hashfn (dev : UInt16) (block : UInt32) : Nat := (dev.toNat ^^^ block.toNat) % nrHash

theorem hashfn_lt (dev : UInt16) (block : UInt32) : hashfn dev block < nrHash :=
  Nat.mod_lt _ (by decide)

/-- `remove_from_queues`; `none` is the panic "Free block list corrupted". -/
def removeFromQueues (bh : Nat) (s : Buffers) : Option Buffers :=
  -- remove from hash-queue
  let s := { s with prev := assign s.prev (s.next bh) (s.prev bh) }
  let s := { s with next := assign s.next (s.prev bh) (s.next bh) }
  let h := hashfn (s.dev bh) (s.blocknr bh)
  let s := { s with
    hashTable := if s.hashTable h = some bh then Function.update s.hashTable h (s.next bh)
      else s.hashTable }
  -- remove from free list
  if s.prevFree bh = none ∨ s.nextFree bh = none then none
  else
    let s := { s with nextFree := assign s.nextFree (s.prevFree bh) (s.nextFree bh) }
    let s := { s with prevFree := assign s.prevFree (s.nextFree bh) (s.prevFree bh) }
    some { s with freeList := if s.freeList = some bh then s.nextFree bh else s.freeList }

/-- `insert_into_queues`. -/
def insertIntoQueues (bh : Nat) (s : Buffers) : Buffers :=
  -- put at end of free list
  let s := { s with nextFree := Function.update s.nextFree bh s.freeList }
  let s := { s with prevFree := Function.update s.prevFree bh (s.freeList.bind s.prevFree) }
  let s := { s with nextFree := assign s.nextFree (s.freeList.bind s.prevFree) (some bh) }
  let s := { s with prevFree := assign s.prevFree s.freeList (some bh) }
  -- put the buffer in new hash-queue if it has a device
  let s := { s with prev := Function.update s.prev bh none }
  let s := { s with next := Function.update s.next bh none }
  if s.dev bh = 0 then s
  else
    let h := hashfn (s.dev bh) (s.blocknr bh)
    let s := { s with next := Function.update s.next bh (s.hashTable h) }
    let s := { s with hashTable := Function.update s.hashTable h (some bh) }
    { s with prev := assign s.prev (s.next bh) (some bh) }

/-- The loop of `find_buffer` from `tmp` on; `none` if it is still walking
after `n` heads. -/
def findFrom (s : Buffers) (dev : UInt16) (block : UInt32) : Nat → Option Nat → Option (Option Nat)
  | _, none => some none
  | 0, some _ => none
  | n + 1, some tmp =>
    if s.dev tmp = dev ∧ s.blocknr tmp = block then some (some tmp)
    else findFrom s dev block n (s.next tmp)

/-- `find_buffer`; `none` would mean that the chain is longer than there are
heads, so that the loop never ends. -/
def findBuffer (s : Buffers) (dev : UInt16) (block : UInt32) : Option (Option Nat) :=
  findFrom s dev block s.nrBuffers (s.hashTable (hashfn dev block))

/-- The end of `getblk`: the head `bh` becomes the buffer of `(dev, block)`. -/
def takeover (bh : Nat) (dev : UInt16) (block : UInt32) (s : Buffers) : Option Buffers :=
  let s := { s with count := Function.update s.count bh 1 }
  let s := { s with dirt := Function.update s.dirt bh false }
  let s := { s with uptodate := Function.update s.uptodate bh false }
  (removeFromQueues bh s).map fun s =>
    let s := { s with dev := Function.update s.dev bh dev }
    let s := { s with blocknr := Function.update s.blocknr bh block }
    insertIntoQueues bh s

/-- One round of the loop of `buffer_init`. -/
def initHead (s : Buffers) (h : Nat) : Buffers :=
  { s with
    dev := Function.update s.dev h 0
    dirt := Function.update s.dirt h false
    count := Function.update s.count h 0
    lock := Function.update s.lock h false
    uptodate := Function.update s.uptodate h false
    next := Function.update s.next h none
    prev := Function.update s.prev h none
    prevFree := Function.update s.prevFree h (some (h - 1))
    nextFree := Function.update s.nextFree h (some (h + 1)) }

/-- `buffer_init` with room for `n` buffers, over whatever memory held before
(`b_blocknr` is not set). The addresses of the data blocks are left out. -/
def bufferInit (n : Nat) (s : Buffers) : Buffers :=
  let s := (List.range n).foldl initHead { s with nrBuffers := n }
  let h := n - 1
  { s with
    freeList := some 0
    prevFree := Function.update s.prevFree 0 (some h)
    nextFree := Function.update s.nextFree h (some 0)
    hashTable := fun _ => none }

/-! ## The shape of the queues -/

/-- The queues in order: `order` is the free list from its head on, `chain k`
the hash chain of bucket `k`. -/
structure Queues (s : Buffers) (order : List Nat) (chain : Nat → List Nat) : Prop where
  nodup  : order.Nodup
  mem    : ∀ h, h ∈ order ↔ h < s.nrBuffers
  ring   : Ring s.nextFree s.prevFree order
  first  : s.freeList = order.head?
  chains : ∀ k, k < nrHash → Dll s.next s.prev none (s.hashTable k) (chain k)
  nodups : ∀ k, (chain k).Nodup
  hashed : ∀ k h, h ∈ chain k ↔
    h < s.nrBuffers ∧ s.dev h ≠ 0 ∧ hashfn (s.dev h) (s.blocknr h) = k
  free   : ∀ h, h < s.nrBuffers → s.dev h = 0 → s.next h = none ∧ s.prev h = none
  unique : ∀ h h', h < s.nrBuffers → h' < s.nrBuffers → s.dev h ≠ 0 → s.dev h = s.dev h' →
    s.blocknr h = s.blocknr h' → h = h'

variable {s : Buffers} {order : List Nat} {chain : Nat → List Nat} {bh : Nat}

/-- The fields the queues do not own are the same. -/
structure SameData (s s' : Buffers) : Prop where
  nrBuffers : s'.nrBuffers = s.nrBuffers
  dev       : s'.dev = s.dev
  blocknr   : s'.blocknr = s.blocknr
  uptodate  : s'.uptodate = s.uptodate
  dirt      : s'.dirt = s.dirt
  count     : s'.count = s.count
  lock      : s'.lock = s.lock

/-- What `remove_from_queues` leaves behind: `bh` is off its chain and, unless
it is the only head, off the free list. -/
structure Removed (s : Buffers) (order : List Nat) (chain : Nat → List Nat) (bh : Nat)
    (s' : Buffers) : Prop where
  data   : SameData s s'
  chains : ∀ k, k < nrHash → Dll s'.next s'.prev none (s'.hashTable k) ((chain k).erase bh)
  others : ∀ h, h < s.nrBuffers → s.dev h = 0 → h ≠ bh → s'.next h = none ∧ s'.prev h = none
  ring   : order ≠ [bh] → Ring s'.nextFree s'.prevFree (order.erase bh) ∧
    s'.freeList = (order.erase bh).head?
  alone  : order = [bh] → s'.nextFree bh = some bh ∧ s'.prevFree bh = some bh ∧
    s'.freeList = some bh

/-- The chains after the hash part of `remove_from_queues`. -/
theorem chains_removed (Q : Queues s order chain) (hbh : bh < s.nrBuffers) :
    let prev' := assign s.prev (s.next bh) (s.prev bh)
    let next' := assign s.next (prev' bh) (s.next bh)
    let h := hashfn (s.dev bh) (s.blocknr bh)
    let table' := if s.hashTable h = some bh then Function.update s.hashTable h (next' bh)
      else s.hashTable
    (∀ k, k < nrHash → Dll next' prev' none (table' k) ((chain k).erase bh)) ∧
      ∀ x, x < s.nrBuffers → s.dev x = 0 → x ≠ bh → next' x = none ∧ prev' x = none := by
  intro prev' next' h table'
  have hlt : h < nrHash := hashfn_lt _ _
  by_cases hdev : s.dev bh = 0
  · -- never hashed: all pointers are null and the bucket does not start with it
    obtain ⟨hn, hp⟩ := Q.free bh hbh hdev
    have hnot : ∀ k, bh ∉ chain k := fun k hk => ((Q.hashed k bh).mp hk).2.1 hdev
    have hprev' : prev' = s.prev := by
      simp only [prev', hn]
      rfl
    have hnext' : next' = s.next := by
      simp only [next', hprev', hp]
      rfl
    have htable' : table' = s.hashTable := by
      simp only [table']
      rw [if_neg]
      rw [(Q.chains h hlt).head]
      exact fun he => hnot h (List.mem_of_head? he)
    rw [hprev', hnext', htable']
    refine ⟨?_, fun x hx hx0 _ => Q.free x hx hx0⟩
    intro k hk
    rw [List.erase_of_not_mem (hnot k)]
    exact Q.chains k hk
  · have hmem : bh ∈ chain h := (Q.hashed h bh).mpr ⟨hbh, hdev, rfl⟩
    have hdll := Q.chains h hlt
    -- the neighbours are on the same chain, and none is `bh` itself
    have hnin : ∀ x, s.next bh = some x → x ∈ chain h := fun x hx => (hdll.mem hmem).1 hx
    have hpin : ∀ x, s.prev bh = some x → x ∈ chain h := by
      intro x hx
      rcases (hdll.mem hmem).2 hx with h' | h'
      · exact h'
      · cases h'
    have hrem := dll_remove hdll (Q.nodups h) (by simp) hmem
    have hself := hdll.next_ne_self (Q.nodups h) hmem
    have hprevbh : prev' bh = s.prev bh := assign_of_ne hself
    have hnext' : next' = assign s.next (s.prev bh) (s.next bh) := by
      simp only [next', hprevbh]
    have hnextbh : next' bh = s.next bh := by
      rw [hnext']
      by_cases hp : s.prev bh = some bh
      · rw [hp, assign_self]
      · exact assign_of_ne hp
    have htable : ∀ k, table' k = if k = h ∧ s.hashTable h = some bh then s.next bh
        else s.hashTable k := by
      intro k
      simp only [table', hnextbh]
      by_cases hb : s.hashTable h = some bh
      · rw [if_pos hb, Function.update_apply]
        by_cases hk : k = h
        · rw [if_pos hk, if_pos ⟨hk, hb⟩]
        · rw [if_neg hk, if_neg (by tauto)]
      · rw [if_neg hb, if_neg (by tauto)]
    -- pointers of heads on other chains are not written
    have hframe : ∀ x, x ∉ chain h → next' x = s.next x ∧ prev' x = s.prev x := by
      intro x hx
      refine ⟨?_, assign_of_ne (fun he => hx (hnin x he))⟩
      rw [hnext']
      exact assign_of_ne (fun he => hx (hpin x he))
    refine ⟨?_, ?_⟩
    · intro k hk
      by_cases hkh : k = h
      · subst hkh
        rw [htable, hnext']
        simp only [true_and]
        exact hrem
      · have hout : ∀ x ∈ chain k, x ∉ chain h := by
          intro x hx hxh
          exact hkh (((Q.hashed k x).mp hx).2.2.symm.trans ((Q.hashed h x).mp hxh).2.2)
        rw [htable, if_neg (by tauto), List.erase_of_not_mem (fun hb => hout bh hb hmem)]
        exact (Q.chains k hk).congr (fun x hx => (hframe x (hout x hx)).1)
          (fun x hx => (hframe x (hout x hx)).2)
    · intro x hx hx0 _
      have hxh : x ∉ chain h := fun hm => ((Q.hashed h x).mp hm).2.1 hx0
      rw [(hframe x hxh).1, (hframe x hxh).2]
      exact Q.free x hx hx0

/-- The free list after `remove_from_queues`. -/
theorem ring_removed (Q : Queues s order chain) (hbh : bh < s.nrBuffers) :
    ∃ p q, s.prevFree bh = some p ∧ s.nextFree bh = some q ∧
      let nextFree' := assign s.nextFree (some p) (some q)
      let prevFree' := assign s.prevFree (nextFree' bh) (s.prevFree bh)
      let freeList' := if s.freeList = some bh then nextFree' bh else s.freeList
      (order ≠ [bh] → Ring nextFree' prevFree' (order.erase bh) ∧
        freeList' = (order.erase bh).head?) ∧
      (order = [bh] → nextFree' bh = some bh ∧ prevFree' bh = some bh ∧ freeList' = some bh) := by
  have hmem := (Q.mem bh).mpr hbh
  obtain ⟨xs, ys, rfl⟩ := List.append_of_mem hmem
  have hnd := Q.nodup
  have hrot : Ring s.nextFree s.prevFree (bh :: (ys ++ xs)) := ring_rotate Q.ring
  have hnd' : (bh :: (ys ++ xs)).Nodup := by
    have hperm : (xs ++ bh :: ys).Perm (bh :: (ys ++ xs)) := List.perm_append_comm
    exact hperm.nodup_iff.mp hnd
  have hbx : bh ∉ xs := by
    intro hx
    exact (List.nodup_cons.mp hnd').1 (List.mem_append_right _ hx)
  have herase : (xs ++ bh :: ys).erase bh = xs ++ ys := by
    rw [List.erase_append_right _ hbx, List.erase_cons_head]
  by_cases hl : ys ++ xs = []
  · -- the only head
    obtain ⟨rfl, rfl⟩ := List.append_eq_nil_iff.mp hl
    obtain ⟨h1, h2⟩ := seg_pair.mp hrot
    refine ⟨bh, bh, h2, h1, ?_, ?_⟩
    · intro hne
      exact absurd rfl hne
    · intro _
      refine ⟨assign_self, ?_, ?_⟩
      · simp only [assign_self]
        exact h2
      · simp only [assign_self]
        exact if_pos Q.first
  · obtain ⟨p, q, hp, hq, hpl, hql, hring⟩ := ring_remove hrot hnd' hl
    have hpb : p ≠ bh := by
      rintro rfl
      exact (List.nodup_cons.mp hnd').1 hpl
    refine ⟨p, q, hp, hq, ?_, ?_⟩
    · intro _
      have hnb : assign s.nextFree (some p) (some q) bh = some q := by
        rw [assign_of_ne (by simpa using hpb)]
        exact hq
      simp only [hnb, hp, herase]
      refine ⟨ring_rotate hring, ?_⟩
      cases xs with
      | nil =>
        have hfirst : s.freeList = some bh := Q.first
        rw [if_pos hfirst]
        rw [List.append_nil] at hql
        exact hql.symm
      | cons x xs =>
        have hxb : x ≠ bh := by
          rintro rfl
          exact hbx (List.mem_cons_self ..)
        have hfirst : s.freeList = some x := Q.first
        rw [if_neg (by rw [hfirst]; simpa using hxb), hfirst]
        rfl
    · intro he
      refine absurd ?_ hl
      cases xs with
      | nil =>
        cases he
        rfl
      | cons x xs =>
        have hlen := congrArg List.length he
        simp at hlen

/-- **`remove_from_queues`** does not panic and takes the head off its
queues. -/
theorem removeFromQueues_spec (Q : Queues s order chain) (hbh : bh < s.nrBuffers) :
    ∃ s', removeFromQueues bh s = some s' ∧ Removed s order chain bh s' := by
  obtain ⟨hchains, hothers⟩ := chains_removed Q hbh
  obtain ⟨p, q, hp, hq, hring, halone⟩ := ring_removed Q hbh
  have hnotnull : ¬ (s.prevFree bh = none ∨ s.nextFree bh = none) := by
    rw [hp, hq]
    simp
  rw [hp] at hring halone
  refine ⟨_, if_neg hnotnull, ⟨rfl, rfl, rfl, rfl, rfl, rfl, rfl⟩, hchains, hothers, ?_, ?_⟩
  · simp only [hp, hq]
    exact hring
  · simp only [hp, hq]
    exact halone

/-- The chains after `insert_into_queues`, `bh` having been on none. -/
theorem chains_inserted
    (hchains : ∀ k, k < nrHash → Dll s.next s.prev none (s.hashTable k) (chain k))
    (hnodups : ∀ k, (chain k).Nodup) (hnot : ∀ k, bh ∉ chain k)
    (hdisj : ∀ j k x, x ∈ chain j → x ∈ chain k → j = k) :
    let s' := insertIntoQueues bh s
    ∀ k, k < nrHash → Dll s'.next s'.prev none (s'.hashTable k)
      (if s.dev bh ≠ 0 ∧ k = hashfn (s.dev bh) (s.blocknr bh) then bh :: chain k
        else chain k) := by
  intro s' k hk
  have hframe : ∀ (f : Nat → Option Nat) v, ∀ x ∈ chain k, Function.update f bh v x = f x := by
    intro f v x hx
    exact Function.update_of_ne (by rintro rfl; exact hnot k hx) _ _
  by_cases hd : s.dev bh = 0
  · -- no device: on no chain
    have hs' : s'.next = Function.update s.next bh none ∧
        s'.prev = Function.update s.prev bh none ∧ s'.hashTable = s.hashTable := by
      simp only [s', insertIntoQueues]
      rw [if_pos hd]
      exact ⟨rfl, rfl, rfl⟩
    rw [hs'.1, hs'.2.1, hs'.2.2, if_neg (by tauto)]
    exact (hchains k hk).congr (hframe _ _) (hframe _ _)
  set h := hashfn (s.dev bh) (s.blocknr bh) with hh
  have hlt : h < nrHash := hashfn_lt _ _
  have hnext : s'.next = Function.update s.next bh (s.hashTable h) := by
    simp only [s', insertIntoQueues]
    rw [if_neg hd]
    simp only [Function.update_idem]
    rfl
  have hprev : s'.prev = assign (Function.update s.prev bh none) (s.hashTable h) (some bh) := by
    simp only [s', insertIntoQueues]
    rw [if_neg hd]
    simp only [Function.update_self]
    rfl
  have htable : s'.hashTable = Function.update s.hashTable h (some bh) := by
    simp only [s', insertIntoQueues]
    rw [if_neg hd]
  rw [hnext, hprev, htable]
  by_cases hkh : k = h
  · subst hkh
    rw [if_pos ⟨hd, rfl⟩, Function.update_self]
    exact dll_insert (hchains h hk) (hnodups h) (hnot h)
  · rw [if_neg (by tauto), Function.update_of_ne hkh]
    refine (hchains k hk).congr (hframe _ _) ?_
    · intro x hx
      rw [assign_of_ne]
      · exact hframe _ _ x hx
      · rw [(hchains h hlt).head]
        intro he
        exact hkh (hdisj k h x hx (List.mem_of_head? he))

/-- The fields of the free list after `insert_into_queues`. -/
theorem insertIntoQueues_free (bh : Nat) (s : Buffers) :
    (insertIntoQueues bh s).nextFree =
      assign (Function.update s.nextFree bh s.freeList)
        (s.freeList.bind (Function.update s.prevFree bh (s.freeList.bind s.prevFree))) (some bh) ∧
    (insertIntoQueues bh s).prevFree =
      assign (Function.update s.prevFree bh (s.freeList.bind s.prevFree)) s.freeList (some bh) ∧
    (insertIntoQueues bh s).freeList = s.freeList := by
  simp only [insertIntoQueues]
  split <;> exact ⟨rfl, rfl, rfl⟩

/-- `insert_into_queues` leaves everything else alone. -/
theorem insertIntoQueues_data (bh : Nat) (s : Buffers) : SameData s (insertIntoQueues bh s) := by
  simp only [insertIntoQueues]
  split <;> exact ⟨rfl, rfl, rfl, rfl, rfl, rfl, rfl⟩

/-- Without a device the head is on no chain. -/
theorem insertIntoQueues_null (hd : s.dev bh = 0) :
    (insertIntoQueues bh s).next bh = none ∧ (insertIntoQueues bh s).prev bh = none := by
  simp only [insertIntoQueues]
  rw [if_pos hd]
  exact ⟨Function.update_self .., Function.update_self ..⟩

theorem insertIntoQueues_others {x : Nat} (hx : x ≠ bh)
    (hhead : s.hashTable (hashfn (s.dev bh) (s.blocknr bh)) ≠ some x) :
    (insertIntoQueues bh s).next x = s.next x ∧ (insertIntoQueues bh s).prev x = s.prev x := by
  simp only [insertIntoQueues]
  split
  · exact ⟨Function.update_of_ne hx _ _, Function.update_of_ne hx _ _⟩
  · simp only [Function.update_idem, Function.update_self]
    refine ⟨Function.update_of_ne hx _ _, ?_⟩
    rw [assign_of_ne hhead, Function.update_of_ne hx]

/-- The free list after `insert_into_queues` into a list with others. -/
theorem ring_inserted {l : List Nat} (hring : Ring s.nextFree s.prevFree l) (hnd : l.Nodup)
    (hbh : bh ∉ l) (hfirst : s.freeList = l.head?) :
    Ring (insertIntoQueues bh s).nextFree (insertIntoQueues bh s).prevFree (l ++ [bh]) ∧
      (insertIntoQueues bh s).freeList = (l ++ [bh]).head? := by
  obtain ⟨hn, hp, hf⟩ := insertIntoQueues_free bh s
  cases l with
  | nil => exact hring.elim
  | cons a l =>
    have hfirst : s.freeList = some a := hfirst
    have hab : a ≠ bh := by
      rintro rfl
      exact hbh (List.mem_cons_self ..)
    obtain ⟨z, hz, -, hnew⟩ := ring_insert hring hnd hbh
    rw [hn, hp, hf, hfirst]
    simp only [Option.bind_some, Function.update_of_ne hab, hz]
    exact ⟨hnew, rfl⟩

/-- The free list after `insert_into_queues` of the only head. -/
theorem ring_inserted_alone (hp : s.prevFree bh = some bh) (hf : s.freeList = some bh) :
    Ring (insertIntoQueues bh s).nextFree (insertIntoQueues bh s).prevFree [bh] ∧
      (insertIntoQueues bh s).freeList = some bh := by
  obtain ⟨hn', hp', hf'⟩ := insertIntoQueues_free bh s
  rw [hn', hp', hf', hf]
  simp only [Option.bind_some, hp, Function.update_self]
  exact ⟨seg_pair.mpr ⟨assign_self, assign_self⟩, trivial⟩

/-! ## A takeover -/

/-- The chains after `bh` became the buffer of `(dev, block)`. -/
def rechain (chain : Nat → List Nat) (bh : Nat) (dev : UInt16) (block : UInt32) (k : Nat) :
    List Nat :=
  if dev ≠ 0 ∧ k = hashfn dev block then bh :: (chain k).erase bh else (chain k).erase bh

/-- What a takeover leaves behind. -/
structure TakenOver (s : Buffers) (bh : Nat) (dev : UInt16) (block : UInt32) (s' : Buffers) :
    Prop where
  nrBuffers : s'.nrBuffers = s.nrBuffers
  dev       : s'.dev = Function.update s.dev bh dev
  blocknr   : s'.blocknr = Function.update s.blocknr bh block
  uptodate  : s'.uptodate = Function.update s.uptodate bh false
  dirt      : s'.dirt = Function.update s.dirt bh false
  count     : s'.count = Function.update s.count bh 1
  lock      : s'.lock = s.lock

/-- **A takeover keeps the shape of the queues.** It does not panic; the head
goes to the end of the free list and onto the chain of its new block. -/
theorem takeover_queues (Q : Queues s order chain) (hbh : bh < s.nrBuffers) {dev : UInt16}
    {block : UInt32}
    (hnew : dev ≠ 0 → ∀ h, h < s.nrBuffers → ¬ (s.dev h = dev ∧ s.blocknr h = block)) :
    ∃ s', takeover bh dev block s = some s' ∧ TakenOver s bh dev block s' ∧
      Queues s' (order.erase bh ++ [bh]) (rechain chain bh dev block) := by
  -- the assignments before do not concern the queues
  set s₀ : Buffers := { s with
    count := Function.update s.count bh 1
    dirt := Function.update s.dirt bh false
    uptodate := Function.update s.uptodate bh false } with hs₀
  have Q₀ : Queues s₀ order chain :=
    ⟨Q.nodup, Q.mem, Q.ring, Q.first, Q.chains, Q.nodups, Q.hashed, Q.free, Q.unique⟩
  obtain ⟨s₁, he, R⟩ := removeFromQueues_spec Q₀ hbh
  set s₂ : Buffers := { s₁ with
    dev := Function.update s₁.dev bh dev
    blocknr := Function.update s₁.blocknr bh block } with hs₂
  have hd₂ : s₂.dev bh = dev := Function.update_self ..
  have hb₂ : s₂.blocknr bh = block := Function.update_self ..
  have D := insertIntoQueues_data bh s₂
  have T : TakenOver s bh dev block (insertIntoQueues bh s₂) := by
    refine ⟨?_, ?_, ?_, ?_, ?_, ?_, ?_⟩
    · rw [D.nrBuffers]; exact R.data.nrBuffers
    · rw [D.dev]; exact congrArg (Function.update · bh dev) R.data.dev
    · rw [D.blocknr]; exact congrArg (Function.update · bh block) R.data.blocknr
    · rw [D.uptodate]; exact R.data.uptodate
    · rw [D.dirt]; exact R.data.dirt
    · rw [D.count]; exact R.data.count
    · rw [D.lock]; exact R.data.lock
  refine ⟨insertIntoQueues bh s₂, ?_, T, ?_⟩
  · show (removeFromQueues bh s₀).map _ = _
    rw [he]
    rfl
  -- the chains without `bh`
  have hmem₁ : ∀ k h, h ∈ (chain k).erase bh ↔ h ≠ bh ∧ h ∈ chain k :=
    fun k h => (Q.nodups k).mem_erase_iff
  have hnot : ∀ k, bh ∉ (chain k).erase bh := fun k h => ((hmem₁ k bh).mp h).1 rfl
  have hnodups : ∀ k, ((chain k).erase bh).Nodup := fun k => (Q.nodups k).erase bh
  have hdisj : ∀ j k x, x ∈ (chain j).erase bh → x ∈ (chain k).erase bh → j = k := by
    intro j k x hj hk
    have h1 := ((Q.hashed j x).mp ((hmem₁ j x).mp hj).2).2.2
    have h2 := ((Q.hashed k x).mp ((hmem₁ k x).mp hk).2).2.2
    exact h1.symm.trans h2
  have hchains := chains_inserted (s := s₂) R.chains hnodups hnot hdisj
  rw [hd₂, hb₂] at hchains
  have hmem : bh ∈ order := (Q.mem bh).mpr hbh
  have hord : bh ∉ order.erase bh := fun h => (Q.nodup.mem_erase_iff.mp h).1 rfl
  have hfree : Ring (insertIntoQueues bh s₂).nextFree (insertIntoQueues bh s₂).prevFree
      (order.erase bh ++ [bh]) ∧
      (insertIntoQueues bh s₂).freeList = (order.erase bh ++ [bh]).head? := by
    by_cases halone : order = [bh]
    · obtain ⟨-, h2, h3⟩ := R.alone halone
      rw [halone, List.erase_cons_head]
      exact ring_inserted_alone h2 h3
    · obtain ⟨h1, h2⟩ := R.ring halone
      exact ring_inserted h1 (Q.nodup.erase bh) hord h2
  have hdev' : ∀ h, (insertIntoQueues bh s₂).dev h = if h = bh then dev else s.dev h := by
    intro h
    rw [T.dev, Function.update_apply]
  have hblk' : ∀ h, (insertIntoQueues bh s₂).blocknr h = if h = bh then block else s.blocknr h := by
    intro h
    rw [T.blocknr, Function.update_apply]
  refine ⟨?_, ?_, hfree.1, hfree.2, hchains, ?_, ?_, ?_, ?_⟩
  · exact List.nodup_append'.mpr ⟨Q.nodup.erase bh, List.nodup_singleton bh,
      by simpa using hord⟩
  · intro h
    rw [T.nrBuffers, List.mem_append, Q.nodup.mem_erase_iff, List.mem_singleton, ← Q.mem]
    constructor
    · rintro (⟨-, h1⟩ | rfl)
      · exact h1
      · exact hmem
    · intro h1
      by_cases hb : h = bh
      · exact Or.inr hb
      · exact Or.inl ⟨hb, h1⟩
  · intro k
    unfold rechain
    split
    · exact List.nodup_cons.mpr ⟨hnot k, hnodups k⟩
    · exact hnodups k
  · intro k h
    rw [T.nrBuffers, hdev', hblk']
    unfold rechain
    by_cases hb : h = bh
    · subst hb
      rw [if_pos rfl, if_pos rfl]
      split
      · next hk => exact ⟨fun _ => ⟨hbh, hk.1, hk.2.symm⟩, fun _ => List.mem_cons_self ..⟩
      · next hk =>
        constructor
        · intro hm
          exact absurd hm (hnot k)
        · rintro ⟨-, h2, h3⟩
          exact absurd ⟨h2, h3.symm⟩ hk
    · rw [if_neg hb, if_neg hb, ← Q.hashed k h]
      split
      · rw [List.mem_cons, hmem₁]
        tauto
      · rw [hmem₁]
        tauto
  · intro h hh h0
    rw [T.nrBuffers] at hh
    rw [hdev'] at h0
    by_cases hb : h = bh
    · rw [if_pos hb] at h0
      subst hb
      exact insertIntoQueues_null (hd₂.trans h0)
    · rw [if_neg hb] at h0
      obtain ⟨h1, h2⟩ := R.others h hh h0 hb
      have hhead : s₂.hashTable (hashfn (s₂.dev bh) (s₂.blocknr bh)) ≠ some h := by
        intro hh'
        have hd := (R.chains _ (hashfn_lt (s₂.dev bh) (s₂.blocknr bh))).head
        have hm : h ∈ (chain (hashfn (s₂.dev bh) (s₂.blocknr bh))).erase bh :=
          List.mem_of_head? (hd.symm.trans hh')
        exact ((Q.hashed _ h).mp ((hmem₁ _ h).mp hm).2).2.1 h0
      obtain ⟨h3, h4⟩ := insertIntoQueues_others (s := s₂) hb hhead
      exact ⟨h3.trans h1, h4.trans h2⟩
  · intro h h' hh hh' hd he' hbl
    rw [T.nrBuffers] at hh hh'
    rw [hdev'] at hd he'
    rw [hdev' h'] at he'
    rw [hblk', hblk'] at hbl
    by_cases hb : h = bh
    · by_cases hb' : h' = bh
      · rw [hb, hb']
      · rw [if_pos hb, if_neg hb'] at he' hbl
        rw [if_pos hb] at hd
        exact absurd ⟨he'.symm, hbl.symm⟩ (hnew hd h' hh')
    · rw [if_neg hb] at hd he' hbl
      by_cases hb' : h' = bh
      · rw [if_pos hb'] at he' hbl
        exact absurd ⟨he', hbl⟩ (hnew (he' ▸ hd) h hh)
      · rw [if_neg hb'] at he' hbl
        exact Q.unique h h' hh hh' hd he' hbl

/-! ## Lookup -/

/-- The walk along a chain ends, with the first head that carries the pair. -/
theorem findFrom_dll {dev : UInt16} {block : UInt32} {p h : Option Nat} {l : List Nat} {n : Nat}
    (hl : Dll s.next s.prev p h l) (hn : l.length ≤ n) :
    findFrom s dev block n h = some (l.find? fun x => s.dev x = dev ∧ s.blocknr x = block) := by
  induction l generalizing p h n with
  | nil =>
    have hnone : h = none := hl
    subst hnone
    cases n <;> rfl
  | cons x l ih =>
    obtain ⟨rfl, -, h3⟩ := hl
    obtain ⟨m, rfl⟩ : ∃ m, n = m + 1 := ⟨n - 1, by simp only [List.length_cons] at hn; omega⟩
    rw [findFrom]
    by_cases hx : s.dev x = dev ∧ s.blocknr x = block
    · rw [if_pos hx, List.find?_cons_of_pos (by simpa using hx)]
    · rw [if_neg hx, List.find?_cons_of_neg (by simpa using hx)]
      exact ih h3 (by simp only [List.length_cons] at hn; omega)

theorem Queues.chain_length (Q : Queues s order chain) (k : Nat) :
    (chain k).length ≤ s.nrBuffers := by
  have hsub : chain k ⊆ List.range s.nrBuffers := by
    intro h hh
    exact List.mem_range.mpr ((Q.hashed k h).mp hh).1
  have := (List.subperm_of_subset (Q.nodups k) hsub).length_le
  rwa [List.length_range] at this

theorem Queues.findBuffer (Q : Queues s order chain) (dev : UInt16) (block : UInt32) :
    findBuffer s dev block = some ((chain (hashfn dev block)).find? fun x =>
      s.dev x = dev ∧ s.blocknr x = block) :=
  findFrom_dll (Q.chains _ (hashfn_lt dev block)) (Q.chain_length _)

/-- **A lookup finds a head exactly if it carries the pair**, device 0 (a
buffer not in use) apart. -/
theorem findBuffer_eq_some (Q : Queues s order chain) {dev : UInt16} {block : UInt32} {h : Nat} :
    findBuffer s dev block = some (some h) ↔
      dev ≠ 0 ∧ h < s.nrBuffers ∧ s.dev h = dev ∧ s.blocknr h = block := by
  rw [Q.findBuffer, Option.some_inj]
  constructor
  · intro hf
    have hkey := List.find?_some hf
    obtain ⟨hd, hb⟩ : s.dev h = dev ∧ s.blocknr h = block := by simpa using hkey
    obtain ⟨hlt, hne, -⟩ := (Q.hashed _ h).mp (List.mem_of_find?_eq_some hf)
    exact ⟨by rw [← hd]; exact hne, hlt, hd, hb⟩
  · rintro ⟨hne, hlt, hd, hb⟩
    have hmem : h ∈ chain (hashfn dev block) :=
      (Q.hashed _ h).mpr ⟨hlt, by rw [hd]; exact hne, by rw [hd, hb]⟩
    cases hf : (chain (hashfn dev block)).find? fun x => s.dev x = dev ∧ s.blocknr x = block with
    | none =>
      have := List.find?_eq_none.mp hf h hmem
      simp [hd, hb] at this
    | some h' =>
      -- no two heads carry one pair
      have hkey := List.find?_some hf
      obtain ⟨hd', hb'⟩ : s.dev h' = dev ∧ s.blocknr h' = block := by simpa using hkey
      obtain ⟨hlt', hne', -⟩ := (Q.hashed _ h').mp (List.mem_of_find?_eq_some hf)
      rw [Q.unique h' h hlt' hlt hne' (hd'.trans hd.symm) (hb'.trans hb.symm)]

theorem findBuffer_eq_none (Q : Queues s order chain) {dev : UInt16} {block : UInt32} :
    findBuffer s dev block = some none ↔
      dev = 0 ∨ ∀ h, h < s.nrBuffers → ¬ (s.dev h = dev ∧ s.blocknr h = block) := by
  have hsome : ∀ h, findBuffer s dev block = some (some h) ↔
      dev ≠ 0 ∧ h < s.nrBuffers ∧ s.dev h = dev ∧ s.blocknr h = block :=
    fun h => findBuffer_eq_some Q
  rw [Q.findBuffer] at hsome ⊢
  constructor
  · intro hnone
    by_cases hdev : dev = 0
    · exact Or.inl hdev
    · refine Or.inr ?_
      rintro h hlt ⟨hd, hb⟩
      have := (hsome h).mpr ⟨hdev, hlt, hd, hb⟩
      rw [hnone] at this
      cases this
  · intro hor
    cases hf : (chain (hashfn dev block)).find? fun x => s.dev x = dev ∧ s.blocknr x = block with
    | none => rfl
    | some h =>
      obtain ⟨hne, hlt, hd, hb⟩ := (hsome h).mp (by rw [hf])
      rcases hor with h0 | hno
      · exact absurd h0 hne
      · exact absurd ⟨hd, hb⟩ (hno h hlt)

/-! ## Start-up -/

/-- The heads after `n` rounds of the loop of `buffer_init`. -/
theorem initHeads (n : Nat) (s : Buffers) :
    let s' := (List.range n).foldl initHead s
    s'.nrBuffers = s.nrBuffers ∧ ∀ h, h < n →
      s'.dev h = 0 ∧ s'.next h = none ∧ s'.prev h = none ∧ s'.nextFree h = some (h + 1) ∧
        s'.prevFree h = some (h - 1) ∧ s'.count h = 0 ∧ s'.dirt h = false ∧ s'.lock h = false := by
  induction n with
  | zero => exact ⟨rfl, fun h hh => absurd hh (by omega)⟩
  | succ n ih =>
    obtain ⟨hnr, hheads⟩ := ih
    simp only [List.range_succ, List.foldl_append, List.foldl_cons, List.foldl_nil]
    refine ⟨hnr, ?_⟩
    intro h hh
    by_cases hn : h = n
    · subst hn
      simp only [initHead, Function.update_self, and_self]
    · simp only [initHead, Function.update_of_ne hn]
      exact hheads h (by omega)

/-- `buffer_init` marks no buffer up to date. -/
theorem initHeads_uptodate (n : Nat) (b : Buffers) :
    ∀ h, h < n → ((List.range n).foldl initHead b).uptodate h = false := by
  induction n with
  | zero => exact fun h hh => absurd hh (by omega)
  | succ n ih =>
    intro h hh
    simp only [List.range_succ, List.foldl_append, List.foldl_cons, List.foldl_nil, initHead]
    by_cases hn : h = n
    · rw [hn, Function.update_self]
    · rw [Function.update_of_ne hn]
      exact ih h (by omega)

/-- The free list `buffer_init` builds, up to a given head. -/
theorem seg_range {next prev : Nat → Option Nat} {n : Nat} (hn : ∀ h, h + 1 < n → next h = some (h + 1))
    (hp : ∀ h, h + 1 < n → prev (h + 1) = some h) : Seg next prev (List.range n) := by
  unfold Seg
  rw [List.isChain_range]
  intro h hh
  exact ⟨hn h (by omega), hp h (by omega)⟩

/-- **`buffer_init`** sets up the queues: all heads on the free list in order,
no chain. -/
theorem queues_bufferInit {n : Nat} (hn : 0 < n) (s : Buffers) :
    Queues (bufferInit n s) (List.range n) (fun _ => []) := by
  obtain ⟨hnr, hheads⟩ := initHeads n { s with nrBuffers := n }
  unfold bufferInit
  dsimp only at hnr hheads ⊢
  set s' := (List.range n).foldl initHead { s with nrBuffers := n }
  obtain ⟨m, rfl⟩ : ∃ m, n = m + 1 := ⟨n - 1, by omega⟩
  have hhead : List.range (m + 1) = 0 :: (List.range m).map Nat.succ := List.range_succ_eq_map
  refine ⟨List.nodup_range, ?_, ?_, ?_, ?_, ?_, ?_, ?_, ?_⟩
  · intro h
    rw [List.mem_range, hnr]
  · -- the ring closes from the last head to the first
    show Ring (Function.update s'.nextFree m (some 0)) (Function.update s'.prevFree 0 (some m)) _
    rw [hhead]
    show Seg _ _ (0 :: (List.range m).map Nat.succ ++ [0])
    rw [← hhead, List.range_succ, List.append_assoc]
    refine seg_split.mpr ⟨?_, seg_pair.mpr ⟨Function.update_self .., Function.update_self ..⟩⟩
    rw [← List.range_succ]
    refine seg_range ?_ ?_
    · intro h hh
      rw [Function.update_of_ne (by omega)]
      exact (hheads h (by omega)).2.2.2.1
    · intro h hh
      rw [Function.update_of_ne (by omega)]
      exact (hheads (h + 1) (by omega)).2.2.2.2.1
  · rw [hhead]
    rfl
  · intro k _
    rfl
  · intro k
    exact List.nodup_nil
  · intro k h
    refine ⟨fun hm => absurd hm List.not_mem_nil, ?_⟩
    rintro ⟨hlt, hne, -⟩
    rw [hnr] at hlt
    exact absurd (hheads h hlt).1 hne
  · intro h hlt _
    rw [hnr] at hlt
    exact ⟨(hheads h hlt).2.1, (hheads h hlt).2.2.1⟩
  · intro h h' hlt _ hne
    rw [hnr] at hlt
    exact absurd (hheads h hlt).1 hne

/-! ## Sequences of takeovers -/

/-- A takeover: the head and its new block. -/
structure Take where
  bh    : Nat
  dev   : UInt16
  block : UInt32

/-- The states after a sequence of takeovers, each of a head for a block that
no head carries. -/
inductive Takes (s : Buffers) : List Take → Buffers → Prop
  | nil : Takes s [] s
  | snoc {ts : List Take} {s₁ s₂ : Buffers} (h : Takes s ts s₁) (t : Take)
      (hbh : t.bh < s₁.nrBuffers) (hdev : t.dev ≠ 0)
      (hnew : ∀ h, h < s₁.nrBuffers → ¬ (s₁.dev h = t.dev ∧ s₁.blocknr h = t.block))
      (ht : takeover t.bh t.dev t.block s₁ = some s₂) : Takes s (ts ++ [t]) s₂

/-- Least recently taken first: the heads never taken, then each head taken,
where it was last taken. -/
def takenOrder (n : Nat) (taken : List Nat) : List Nat :=
  (List.range n).filter (fun h => h ∉ taken) ++ taken.dedup

theorem dedup_snoc (l : List Nat) (b : Nat) : (l ++ [b]).dedup = l.dedup.erase b ++ [b] := by
  induction l with
  | nil => rfl
  | cons a l ih =>
    rw [List.cons_append]
    by_cases ha : a ∈ l
    · rw [List.dedup_cons_of_mem (List.mem_append_left _ ha), List.dedup_cons_of_mem ha, ih]
    · by_cases hab : a = b
      · subst hab
        rw [List.dedup_cons_of_mem (by simp), List.dedup_cons_of_notMem ha, ih,
          List.erase_cons_head, List.erase_of_not_mem (by simpa using ha)]
      · rw [List.dedup_cons_of_notMem (by simp [ha, hab]), List.dedup_cons_of_notMem ha, ih,
          List.erase_cons_tail (by simpa using hab)]
        rfl

/-- Taking a head moves it to the end. -/
theorem takenOrder_snoc (n : Nat) (taken : List Nat) (b : Nat) :
    takenOrder n (taken ++ [b]) = (takenOrder n taken).erase b ++ [b] := by
  unfold takenOrder
  rw [dedup_snoc, ← List.append_assoc]
  congr 1
  have hfilter : (List.range n).filter (fun h => h ∉ taken ++ [b]) =
      ((List.range n).filter fun h => h ∉ taken).erase b := by
    rw [(List.nodup_range.filter _).erase_eq_filter, List.filter_filter]
    refine List.filter_congr ?_
    intro h _
    simp [and_comm]
    rfl
  rw [hfilter]
  by_cases hb : b ∈ taken
  · have hnot : b ∉ (List.range n).filter fun h => h ∉ taken := by simp [hb]
    rw [List.erase_of_not_mem hnot, List.erase_append_right _ hnot]
  · by_cases hbn : b < n
    · have hin : b ∈ (List.range n).filter fun h => h ∉ taken := by simp [hb, hbn]
      rw [List.erase_append_left _ hin, List.erase_of_not_mem (l := taken.dedup) (by simpa using hb)]
    · have hnot : b ∉ (List.range n).filter fun h => h ∉ taken := by simp [hbn]
      rw [List.erase_of_not_mem hnot, List.erase_append_right _ hnot]

/-- The queues after any sequence of takeovers. -/
theorem queues_run {n : Nat} (hn : 0 < n) {s s' : Buffers} {ts : List Take}
    (h : Takes (bufferInit n s) ts s') :
    s'.nrBuffers = n ∧ ∃ chain, Queues s' (takenOrder n (ts.map Take.bh)) chain := by
  induction h with
  | nil =>
    refine ⟨(initHeads n _).1, fun _ => [], ?_⟩
    have hrange : takenOrder n [] = List.range n := by simp [takenOrder]
    rw [List.map_nil, hrange]
    exact queues_bufferInit hn s
  | snoc _ t hbh _ hnew ht ih =>
    obtain ⟨hnr, chain, Q⟩ := ih
    obtain ⟨s₂, he, T, Q₂⟩ := takeover_queues Q hbh fun _ => hnew
    rw [ht] at he
    cases he
    refine ⟨T.nrBuffers.trans hnr, rechain chain t.bh t.dev t.block, ?_⟩
    rw [List.map_append, List.map_cons, List.map_nil, takenOrder_snoc]
    exact Q₂

/-- **The queues keep their shape** through `buffer_init` and any sequence of
takeovers. The free list is one ring of all heads, least recently taken first;
a head with a device is on the chain of its bucket and on no other; chains are
null-terminated and mirrored; the next takeover does not panic; and for a
device other than 0, `find_buffer` returns a head exactly if one carries the
pair. -/
theorem buffer_queues {n : Nat} (hn : 0 < n) {s s' : Buffers} {ts : List Take}
    (h : Takes (bufferInit n s) ts s') :
    s'.nrBuffers = n ∧
    (takenOrder n (ts.map Take.bh)).Nodup ∧
    (∀ h, h ∈ takenOrder n (ts.map Take.bh) ↔ h < n) ∧
    Ring s'.nextFree s'.prevFree (takenOrder n (ts.map Take.bh)) ∧
    s'.freeList = (takenOrder n (ts.map Take.bh)).head? ∧
    (∃ chain : Nat → List Nat,
      (∀ k, k < nrHash → Dll s'.next s'.prev none (s'.hashTable k) (chain k)) ∧
      (∀ k, (chain k).Nodup) ∧
      ∀ k h, h ∈ chain k ↔ h < n ∧ s'.dev h ≠ 0 ∧ hashfn (s'.dev h) (s'.blocknr h) = k) ∧
    (∀ bh dev block, bh < n → dev ≠ 0 → (∀ h, h < n → ¬ (s'.dev h = dev ∧ s'.blocknr h = block)) →
      takeover bh dev block s' ≠ none) ∧
    ∀ dev block, dev ≠ 0 →
      (∀ h, findBuffer s' dev block = some (some h) → h < n ∧ s'.dev h = dev ∧ s'.blocknr h = block) ∧
      ((∃ h, findBuffer s' dev block = some (some h)) ↔
        ∃ h, h < n ∧ s'.dev h = dev ∧ s'.blocknr h = block) ∧
      (findBuffer s' dev block = some none ↔
        ¬ ∃ h, h < n ∧ s'.dev h = dev ∧ s'.blocknr h = block) := by
  obtain ⟨hnr, chain, Q⟩ := queues_run hn h
  subst hnr
  refine ⟨rfl, Q.nodup, Q.mem, Q.ring, Q.first, ⟨chain, Q.chains, Q.nodups, Q.hashed⟩, ?_, ?_⟩
  · intro bh dev block hbh _ hnew hnone
    obtain ⟨s₂, he, -⟩ := takeover_queues Q hbh fun _ => hnew
    rw [hnone] at he
    cases he
  · intro dev block hdev
    refine ⟨?_, ?_, ?_⟩
    · intro h hf
      exact ((findBuffer_eq_some Q).mp hf).2
    · constructor
      · rintro ⟨h, hf⟩
        exact ⟨h, ((findBuffer_eq_some Q).mp hf).2⟩
      · rintro ⟨h, hh⟩
        exact ⟨h, (findBuffer_eq_some Q).mpr ⟨hdev, hh⟩⟩
    · rw [findBuffer_eq_none Q]
      constructor
      · rintro (h0 | hno) ⟨h, hlt, hk⟩
        · exact hdev h0
        · exact hno h hlt hk
      · intro hno
        exact Or.inr fun h hlt hk => hno ⟨h, hlt, hk⟩

/-- Memory full of zeros. -/
def zeroBuffers : Buffers where
  nrBuffers := 0
  dev := fun _ => 0
  blocknr := fun _ => 0
  uptodate := fun _ => false
  dirt := fun _ => false
  count := fun _ => 0
  lock := fun _ => false
  prev := fun _ => none
  next := fun _ => none
  prevFree := fun _ => none
  nextFree := fun _ => none
  hashTable := fun _ => none
  freeList := none

/-- Two heads, the first of them taken over for block 7 of device 0x301. -/
theorem buffer_queues_two_heads : ∃ s', Takes (bufferInit 2 zeroBuffers) [⟨0, 0x301, 7⟩] s' ∧
    s'.freeList = some 1 ∧ Ring s'.nextFree s'.prevFree [1, 0] := by
  have Q := queues_bufferInit (n := 2) (by decide) zeroBuffers
  have hnr : (bufferInit 2 zeroBuffers).nrBuffers = 2 := rfl
  have hnew : ∀ h, h < (bufferInit 2 zeroBuffers).nrBuffers →
      ¬ ((bufferInit 2 zeroBuffers).dev h = 0x301 ∧ (bufferInit 2 zeroBuffers).blocknr h = 7) := by
    intro h hh
    rw [hnr] at hh
    obtain rfl | rfl : h = 0 ∨ h = 1 := by omega
    all_goals decide
  obtain ⟨s', he, -, -⟩ := takeover_queues Q (show 0 < (bufferInit 2 zeroBuffers).nrBuffers by decide)
    fun _ => hnew
  have ht : Takes (bufferInit 2 zeroBuffers) [⟨0, 0x301, 7⟩] s' :=
    .snoc .nil ⟨0, 0x301, 7⟩ (by decide) (by decide) hnew he
  obtain ⟨-, -, -, hring, hfirst, -⟩ := buffer_queues (by decide) ht
  exact ⟨s', ht, hfirst, hring⟩

/-- A head that is not in use carries device 0 and is found under no pair. -/
theorem findBuffer_misses_free_head :
    ¬ ∀ (n : Nat) (s s' : Buffers) (ts : List Take), 0 < n → Takes (bufferInit n s) ts s' →
      ∀ dev block, (∃ h, findBuffer s' dev block = some (some h)) ↔
        ∃ h, h < n ∧ s'.dev h = dev ∧ s'.blocknr h = block := by
  intro hall
  have h := hall 1 zeroBuffers _ [] (by decide) .nil 0 0
  obtain ⟨x, hx⟩ := h.mpr ⟨0, by decide, by decide, by decide⟩
  have hnone : findBuffer (bufferInit 1 zeroBuffers) 0 0 = some none := by decide
  rw [hnone] at hx
  cases hx

end Linux011.Fs
