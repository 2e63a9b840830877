import Linux011.Lib.Wp
import Mathlib.Logic.Function.Basic
import Mathlib.Data.List.Basic

/-!
# Super blocks from an unknown disk

`read_super` and the counting loops of `mount_root`, on any 1024 bytes in block
1 of the device and any failure of a read. The arrays `s_imap` and `s_zmap`
have eight entries each, and the disk says how many are filled.

Calls run one at a time, so nobody else has a super block locked, and disks are
not exchanged.

* `readMap_spec`, `readMap_outside` — the loop that fills a map;
* `readMaps_bounded`, `readMaps_unbounded` — both loops, and what is released;
* `read_super_harmless`, `mount_root_harmless` — for which disks all is well.
-/

namespace Linux011.Fs.ReadSuper

open Linux011.Lib

def mapSlots : Nat := 8
def nrSuper : Nat := 8
def superMagic : UInt16 := 0x137F

/-- `struct d_super_block`. -/
structure DSuper where
  ninodes       : UInt16
  nzones        : UInt16
  imapBlocks    : UInt16
  zmapBlocks    : UInt16
  firstdatazone : UInt16
  logZoneSize   : UInt16
  maxSize       : UInt32
  magic         : UInt16

/-- A buffer, by its device and block. -/
abbrev Ptr : Type := UInt16 × Nat

/-- `struct super_block`; a null pointer is `none`. -/
structure Super extends DSuper where
  imap   : Nat → Option Ptr
  zmap   : Nat → Option Ptr
  dev    : UInt16
  isup   : Option Nat
  imount : Option Nat
  time   : Nat
  lock   : Bool
  rdOnly : Bool
  dirt   : Bool

/-- The super blocks, and the buffers: `b_count` and `b_data`. -/
structure State where
  super : Nat → Super
  count : Ptr → Nat
  data  : Ptr → Nat → UInt8

/-- A store outside of an array, a null pointer, a buffer released too often;
and the panics "Unable to mount root" and "Unable to read root i-node". -/
inductive Fault
  | outside
  | null
  | freeBuffer
  | noRoot
  | noRootInode
deriving DecidableEq

abbrev SM := EStateM Fault State

/-- Which reads succeed: of block 1, in each round of the two loops, and of the
root inode. -/
structure Reads where
  super : Bool
  imap  : Nat → Bool
  zmap  : Nat → Bool
  root  : Bool

def State.setSuper (m : State) (p : Nat) (x : Super) : State :=
  { m with super := Function.update m.super p x }

def State.setDev (m : State) (p : Nat) (dev : UInt16) : State :=
  m.setSuper p { m.super p with dev := dev }

def State.setLock (m : State) (p : Nat) (b : Bool) : State :=
  m.setSuper p { m.super p with lock := b }

/-- The `unsigned short` at offset `i`. -/
def le16 (b : Nat → UInt8) (i : Nat) : UInt16 := (b i).toUInt16 ||| (b (i + 1)).toUInt16 <<< 8

def le32 (b : Nat → UInt8) (i : Nat) : UInt32 :=
  (le16 b i).toUInt32 ||| (le16 b (i + 2)).toUInt32 <<< 16

/-- `*((struct d_super_block *) bh->b_data)`. -/
def dSuper (b : Nat → UInt8) : DSuper where
  ninodes       := le16 b 0
  nzones        := le16 b 2
  imapBlocks    := le16 b 4
  zmapBlocks    := le16 b 6
  firstdatazone := le16 b 8
  logZoneSize   := le16 b 10
  maxSize       := le32 b 12
  magic         := le16 b 16

/-! ## Buffers -/

def bread (ok : Bool) (dev : UInt16) (block : Nat) : SM (Option Ptr) := do
  if ok then
    modify fun m => { m with
      count := Function.update m.count (dev, block) (m.count (dev, block) + 1) }
    return some (dev, block)
  else return none

def brelse : Option Ptr → SM Unit
  | none => return ()
  | some bh => do
    let m ← get
    if m.count bh = 0 then throw .freeBuffer
    else set { m with count := Function.update m.count bh (m.count bh - 1) }

/-- `for (i=0;i<..;i++) brelse(..[i])`. -/
def brelseAll : List (Option Ptr) → SM Unit
  | [] => return ()
  | bh :: l => do
    brelse bh
    brelseAll l

/-! ## read_super -/

/-- `s_imap` or `s_zmap`. -/
inductive Map
  | imap
  | zmap

def Super.map (x : Super) : Map → Nat → Option Ptr
  | .imap => x.imap
  | .zmap => x.zmap

def Super.setMap (x : Super) (k : Map) (f : Nat → Option Ptr) : Super :=
  match k with
  | .imap => { x with imap := f }
  | .zmap => { x with zmap := f }

/-- `s->s_map[i] = bh`. -/
def storeMap (p : Nat) (k : Map) (i : Nat) (bh : Option Ptr) : SM Unit := do
  if mapSlots ≤ i then throw .outside
  else modify fun m =>
    m.setSuper p ((m.super p).setMap k (Function.update ((m.super p).map k) i bh))

/-- The loops over the blocks of a map, `rounds` more of them; the block after
the last one read. -/
def readMap (p : Nat) (k : Map) (ok : Nat → Bool) (dev : UInt16) : Nat → Nat → Nat → SM Nat
  | 0, _, block => return block
  | rounds + 1, i, block => do
    let bh ← bread (ok i) dev block
    storeMap p k i bh
    if bh.isSome then readMap p k ok dev rounds (i + 1) (block + 1)
    else return block

/-- `s->s_map[0]->b_data[0] |= 1`. -/
def markFirst (bh : Option Ptr) : SM Unit :=
  match bh with
  | none => throw .null
  | some bh => modify fun m => { m with
      data := Function.update m.data bh (Function.update (m.data bh) 0 (m.data bh 0 ||| 1)) }

/-- The entries of the two arrays of a super block. -/
def Super.entries (x : Super) : List (Option Ptr) :=
  (List.range mapSlots).map x.imap ++ (List.range mapSlots).map x.zmap

/-- The two loops, and what is made of them. -/
def readMaps (p : Nat) (dev : UInt16) (reads : Reads) : SM (Option Nat) := do
  modify fun m => m.setSuper p { m.super p with imap := fun _ => none, zmap := fun _ => none }
  let m ← get
  let imapBlocks := (m.super p).imapBlocks.toNat
  let zmapBlocks := (m.super p).zmapBlocks.toNat
  let block ← readMap p .imap reads.imap dev imapBlocks 0 2
  let block ← readMap p .zmap reads.zmap dev zmapBlocks 0 block
  if block ≠ 2 + imapBlocks + zmapBlocks then
    let m ← get
    brelseAll (m.super p).entries
    modify fun m => (m.setDev p 0).setLock p false
    return none
  else
    let m ← get
    markFirst ((m.super p).imap 0)
    markFirst ((m.super p).zmap 0)
    modify fun m => m.setLock p false
    return some p

/-- `read_super` on the free slot `p`. -/
def fillSuper (p : Nat) (dev : UInt16) (reads : Reads) : SM (Option Nat) := do
  modify fun m => m.setSuper p { m.super p with
    dev := dev, isup := none, imount := none, time := 0, rdOnly := false, dirt := false }
  modify fun m => m.setLock p true
  match ← bread reads.super dev 1 with
  | none =>
    modify fun m => (m.setDev p 0).setLock p false
    return none
  | some bh =>
    modify fun m => m.setSuper p { m.super p with toDSuper := dSuper (m.data bh) }
    brelse (some bh)
    let m ← get
    if (m.super p).magic ≠ superMagic then
      modify fun m => (m.setDev p 0).setLock p false
      return none
    else readMaps p dev reads

/-- `get_super`. -/
def State.getSuper (m : State) (dev : UInt16) : Option Nat :=
  if dev = 0 then none else (List.range nrSuper).find? fun p => (m.super p).dev == dev

def readSuper (dev : UInt16) (reads : Reads) : SM (Option Nat) := do
  let m ← get
  if dev = 0 then return none
  else
    match m.getSuper dev with
    | some p => return some p
    | none =>
      match (List.range nrSuper).find? fun p => (m.super p).dev == 0 with
      | none => return none
      | some p => fillSuper p dev reads

/-! ## mount_root -/

/-- `set_bit`, which tests a bit. -/
def testBit (b : Nat → UInt8) (i : Nat) : Bool := (b (i / 8)).toNat.testBit (i % 8)

/-- `while (-- i >= 0) if (!set_bit(i&8191,map[i>>13]->b_data)) free++`. -/
def countFree (map : Nat → Option Ptr) : Nat → Nat → SM Nat
  | 0, free => return free
  | i + 1, free => do
    if mapSlots ≤ i >>> 13 then throw .outside
    else
      match map (i >>> 13) with
      | none => throw .null
      | some bh =>
        let m ← get
        countFree map i (if testBit (m.data bh) (i &&& 8191) then free else free + 1)

/-- `mount_root`: the free blocks and inodes that are printed. -/
def mountRoot (rootDev : UInt16) (reads : Reads) : SM (Nat × Nat) := do
  modify fun m => { m with super := fun p => { m.super p with dev := 0, lock := false } }
  match ← readSuper rootDev reads with
  | none => throw .noRoot
  | some p =>
    if reads.root then
      let m ← get
      let blocks ← countFree (m.super p).zmap (m.super p).nzones.toNat 0
      let inodes ← countFree (m.super p).imap ((m.super p).ninodes.toNat + 1) 0
      return (blocks, inodes)
    else throw .noRootInode

/-! ## The loops that fill a map -/

/-- How many of the reads from round `i` on succeed, before one fails. -/
def passed (ok : Nat → Bool) : Nat → Nat → Nat
  | 0, _ => 0
  | n + 1, i => if ok i then passed ok n (i + 1) + 1 else 0

/-- A loop of `n` rounds does not get past the end of the array. -/
def Fits (ok : Nat → Bool) (n : Nat) : Prop := n ≤ mapSlots ∨ ∃ j, j < mapSlots ∧ ok j = false

/-- `k` blocks from `block` on are in the map from entry `i` on. -/
def fill (f : Nat → Option Ptr) (dev : UInt16) (i block k : Nat) (j : Nat) : Option Ptr :=
  if i ≤ j ∧ j < i + k then some (dev, block + (j - i)) else f j

/-- Their buffers have one more user. -/
def taken (count : Ptr → Nat) (dev : UInt16) (block k : Nat) (x : Ptr) : Nat :=
  if x.1 = dev ∧ block ≤ x.2 ∧ x.2 < block + k then count x + 1 else count x

def State.filled (m : State) (p : Nat) (k : Map) (dev : UInt16) (i block n : Nat) : State where
  super := Function.update m.super p
    ((m.super p).setMap k (fill ((m.super p).map k) dev i block n))
  count := taken m.count dev block n
  data  := m.data

variable {m m' : State} {p : Nat} {dev : UInt16} {ok : Nat → Bool} {k : Map}

@[simp] theorem map_setMap (x : Super) (k : Map) (f : Nat → Option Ptr) :
    (x.setMap k f).map k = f := by
  cases k <;> rfl

@[simp] theorem setMap_setMap (x : Super) (k : Map) (f g : Nat → Option Ptr) :
    (x.setMap k f).setMap k g = x.setMap k g := by
  cases k <;> rfl

@[simp] theorem setMap_map (x : Super) (k : Map) : x.setMap k (x.map k) = x := by
  cases k <;> rfl

theorem filled_zero (m : State) (p : Nat) (k : Map) (dev : UInt16) (i block : Nat) :
    m.filled p k dev i block 0 = m := by
  have hfill : fill ((m.super p).map k) dev i block 0 = (m.super p).map k := by
    funext j
    exact if_neg (by omega)
  have htaken : taken m.count dev block 0 = m.count := by
    funext x
    exact if_neg (by omega)
  simp [State.filled, hfill, htaken]

/-- One block before the others. -/
theorem filled_succ (m : State) (p : Nat) (k : Map) (dev : UInt16) (i block n : Nat) :
    State.filled
      ({ m with count := Function.update m.count (dev, block) (m.count (dev, block) + 1) }.setSuper p
        ((m.super p).setMap k (Function.update ((m.super p).map k) i (some (dev, block)))))
      p k dev (i + 1) (block + 1) n = m.filled p k dev i block (n + 1) := by
  have hfill : fill (Function.update ((m.super p).map k) i (some (dev, block))) dev (i + 1)
      (block + 1) n = fill ((m.super p).map k) dev i block (n + 1) := by
    funext j
    unfold fill
    by_cases hj : j = i
    · rw [hj, if_neg (by omega), if_pos ⟨Nat.le_refl i, by omega⟩, Function.update_self, Nat.sub_self,
        Nat.add_zero]
    · rw [Function.update_of_ne hj]
      by_cases hin : i + 1 ≤ j ∧ j < i + 1 + n
      · rw [if_pos hin, if_pos (by omega), show block + 1 + (j - (i + 1)) = block + (j - i) by omega]
      · rw [if_neg hin, if_neg (by omega)]
  have htaken : taken (Function.update m.count (dev, block) (m.count (dev, block) + 1)) dev
      (block + 1) n = taken m.count dev block (n + 1) := by
    funext x
    unfold taken
    obtain ⟨d, b⟩ := x
    by_cases hx : d = dev ∧ b = block
    · obtain ⟨rfl, rfl⟩ := hx
      rw [if_neg (by dsimp only; omega), if_pos ⟨rfl, Nat.le_refl _, by dsimp only; omega⟩,
        Function.update_self]
    · rw [Function.update_of_ne (by simpa using hx)]
      refine if_congr (and_congr_right fun hd => ?_) rfl rfl
      have hb : b ≠ block := fun h => hx ⟨hd, h⟩
      dsimp only
      omega
  simp [State.filled, State.setSuper, hfill, htaken]

theorem passed_le (ok : Nat → Bool) (n i : Nat) : passed ok n i ≤ n := by
  induction n generalizing i with
  | zero => exact Nat.le_refl 0
  | succ n ih =>
    rw [passed]
    split
    · exact Nat.succ_le_succ (ih (i + 1))
    · exact Nat.zero_le _

/-- **The loop over a map** that ends in time: it takes the blocks up to the
first one that cannot be read. -/
theorem readMap_spec {rounds i block : Nat}
    (hfit : i + rounds ≤ mapSlots ∨ ∃ j, i ≤ j ∧ j < mapSlots ∧ ok j = false)
    (hnone : ∀ j, i ≤ j → (m.super p).map k j = none) :
    wp (readMap p k ok dev rounds i block) (fun b m' => b = block + passed ok rounds i ∧
      m' = m.filled p k dev i block (passed ok rounds i)) (fun _ _ => False) m := by
  induction rounds generalizing i block m with
  | zero => exact ⟨rfl, (filled_zero m p k dev i block).symm⟩
  | succ rounds ih =>
    have hi : ¬ mapSlots ≤ i := by
      rcases hfit with hle | ⟨j, hij, hj, -⟩ <;> omega
    unfold readMap bread storeMap passed
    by_cases hok : ok i = true
    · rw [if_pos hok, if_pos hok]
      simp only [wp_bind, wp_modify, wp_pure, if_neg hi, Option.isSome_some, if_true]
      refine wp_mono (ih ?_ ?_) ?_ fun _ _ he => he
      · rcases hfit with hle | ⟨j, hij, hj, hfail⟩
        · exact Or.inl (by omega)
        · refine Or.inr ⟨j, ?_, hj, hfail⟩
          have : i ≠ j := by
            rintro rfl
            rw [hok] at hfail
            cases hfail
          omega
      · intro j hj
        simp only [State.setSuper, Function.update_self, map_setMap]
        rw [Function.update_of_ne (by omega)]
        exact hnone j (by omega)
      · rintro b m' ⟨rfl, rfl⟩
        exact ⟨by omega, filled_succ m p k dev i block _⟩
    · rw [if_neg hok, if_neg hok]
      have hsame : Function.update ((m.super p).map k) i none = (m.super p).map k := by
        rw [← hnone i (Nat.le_refl i), Function.update_eq_self]
      simp [if_neg hi, hsame, State.setSuper, filled_zero]

/-- A loop that gets past the end of the array. -/
theorem readMap_outside {rounds i block : Nat} (hi : i ≤ mapSlots) (hlong : mapSlots < i + rounds)
    (hok : ∀ j, i ≤ j → j < mapSlots → ok j = true) :
    wp (readMap p k ok dev rounds i block) (fun _ _ => False) (fun e _ => e = .outside) m := by
  induction rounds generalizing i block m with
  | zero => omega
  | succ rounds ih =>
    unfold readMap bread storeMap
    by_cases hend : i = mapSlots
    · subst hend
      split <;> simp
    · have hlt : i < mapSlots := by omega
      rw [if_pos (hok i (Nat.le_refl i) hlt)]
      simp only [wp_bind, wp_modify, wp_pure, if_neg (Nat.not_le_of_lt hlt), Option.isSome_some,
        if_true]
      exact ih (by omega) (by omega) fun j hj => hok j (by omega)

theorem not_fits {n : Nat} (h : ¬ Fits ok n) : mapSlots < n ∧ ∀ j, j < mapSlots → ok j = true := by
  unfold Fits at h
  refine ⟨by omega, fun j hj => ?_⟩
  by_contra hfail
  exact h (Or.inr ⟨j, hj, by simpa using hfail⟩)

theorem passed_fits {n : Nat} (h : Fits ok n) : passed ok n 0 ≤ mapSlots := by
  have hstop : ∀ n i j, i ≤ j → ok j = false → i + passed ok n i ≤ j := by
    intro n
    induction n with
    | zero => exact fun i j hij _ => hij
    | succ n ih =>
      intro i j hij hfail
      rw [passed]
      split
      · next hok =>
        have hne : i ≠ j := by
          rintro rfl
          rw [hok] at hfail
          cases hfail
        have := ih (i + 1) j (by omega) hfail
        omega
      · exact hij
  rcases h with hle | ⟨j, hj, hfail⟩
  · exact Nat.le_trans (passed_le ok n 0) hle
  · have := hstop n 0 j (Nat.zero_le j) hfail
    omega

theorem passed_all {n i : Nat} : passed ok n i = n ↔ ∀ j, i ≤ j → j < i + n → ok j = true := by
  induction n generalizing i with
  | zero => exact ⟨fun _ j hij hj => absurd hj (by omega), fun _ => rfl⟩
  | succ n ih =>
    rw [passed]
    split
    · next hok =>
      rw [Nat.add_right_cancel_iff, ih]
      constructor
      · intro h j hij hj
        by_cases hji : j = i
        · exact hji ▸ hok
        · exact h j (by omega) (by omega)
      · exact fun h j hij hj => h j (by omega) (by omega)
    · next hok =>
      constructor
      · intro h
        omega
      · exact fun h => absurd (h i (Nat.le_refl i) (by omega)) hok

/-! ## Releasing -/

theorem brelseAll_spec (l : List (Option Ptr)) (h : ∀ x, l.count (some x) ≤ m.count x) :
    wp (brelseAll l) (fun _ m' => m' = { m with count := fun x => m.count x - l.count (some x) })
      (fun _ _ => False) m := by
  induction l generalizing m with
  | nil => simp [brelseAll]
  | cons bh l ih =>
    unfold brelseAll
    cases bh with
    | none =>
      have hskip : ∀ x : Ptr, (none :: l).count (some x) = l.count (some x) := fun x => by simp
      simp only [hskip] at h ⊢
      simpa [brelse] using ih h
    | some y =>
      have hy := h y
      rw [List.count_cons_self] at hy
      have hpos : m.count y ≠ 0 := by omega
      simp only [brelse, wp_bind, wp_get, if_neg hpos, wp_set]
      have hcount : ∀ x, (some y :: l).count (some x) =
          l.count (some x) + if x = y then 1 else 0 := by
        intro x
        rw [List.count_cons]
        refine congrArg _ (if_congr ?_ rfl rfl)
        rw [beq_iff_eq, Option.some.injEq, eq_comm]
      refine wp_mono (ih fun x => ?_) ?_ fun _ _ he => he
      · have hx := h x
        rw [hcount] at hx
        by_cases hxy : x = y
        · subst hxy
          rw [if_pos rfl] at hx
          simp only [Function.update_self]
          omega
        · rw [if_neg hxy] at hx
          simp only [Function.update_of_ne hxy]
          omega
      · rintro _ m' rfl
        congr 1
        funext x
        rw [hcount]
        by_cases hxy : x = y
        · subst hxy
          simp only [Function.update_self, if_true]
          omega
        · simp only [Function.update_of_ne hxy, if_neg hxy]
          omega

/-- The buffers in an array with `k` entries. -/
theorem count_fill (dev : UInt16) (block k n : Nat) (x : Ptr) :
    ((List.range n).map (fill (fun _ => none) dev 0 block k)).count (some x) =
      if x.1 = dev ∧ block ≤ x.2 ∧ x.2 < block + min k n then 1 else 0 := by
  obtain ⟨d, b⟩ := x
  induction n with
  | zero => simp
  | succ n ih =>
    rw [List.range_succ, List.map_append, List.count_append, ih, List.map_singleton,
      List.count_singleton]
    have hval : fill (fun _ => none) dev 0 block k n =
        if n < k then some (dev, block + n) else none := by
      simp [fill]
    rw [hval]
    by_cases hn : n < k
    · rw [if_pos hn]
      simp only [beq_iff_eq, Option.some.injEq, Prod.mk.injEq]
      by_cases hd : d = dev
      · subst hd
        simp only [true_and]
        split_ifs <;> omega
      · simp [hd, Ne.symm hd]
    · rw [if_neg hn, show min k (n + 1) = min k n by omega]
      simp

/-! ## read_super -/

/-- The maps of a super block are in the arrays, without a gap. -/
structure Usable (x : Super) : Prop where
  imap_le : x.imapBlocks.toNat ≤ mapSlots
  zmap_le : x.zmapBlocks.toNat ≤ mapSlots
  imap    : ∀ i, i < x.imapBlocks.toNat → x.imap i ≠ none
  zmap    : ∀ i, i < x.zmapBlocks.toNat → x.zmap i ≠ none

/-- All blocks of both maps can be read. -/
def AllRead (d : DSuper) (reads : Reads) : Prop :=
  (∀ i, i < d.imapBlocks.toNat → reads.imap i = true) ∧
    ∀ i, i < d.zmapBlocks.toNat → reads.zmap i = true

/-- The numbers of map blocks do no harm. -/
def Bounded (d : DSuper) (reads : Reads) : Prop :=
  Fits reads.imap d.imapBlocks.toNat ∧ Fits reads.zmap d.zmapBlocks.toNat ∧
    (AllRead d reads → 1 ≤ d.imapBlocks.toNat ∧ 1 ≤ d.zmapBlocks.toNat)

/-- Nothing was taken from the disk: the slot is free, and nobody holds a
buffer for it. -/
structure Refused (m : State) (p : Nat) (m' : State) : Prop where
  others : ∀ q, q ≠ p → m'.super q = m.super q
  dev    : (m'.super p).dev = 0
  lock   : (m'.super p).lock = false
  count  : m'.count = m.count

/-- The super block in slot `p` is the one on the disk, with its maps. -/
structure Accepted (m : State) (p : Nat) (dev : UInt16) (d : DSuper) (m' : State) : Prop where
  others : ∀ q, q ≠ p → m'.super q = m.super q
  disk   : (m'.super p).toDSuper = d
  dev    : (m'.super p).dev = dev
  lock   : (m'.super p).lock = false
  usable : Usable (m'.super p)
  imap   : ∀ i, d.imapBlocks.toNat ≤ i → (m'.super p).imap i = none
  zmap   : ∀ i, d.zmapBlocks.toNat ≤ i → (m'.super p).zmap i = none

/-- What a call that does no harm leaves. -/
def Outcome (m : State) (p : Nat) (dev : UInt16) (d : DSuper) (reads : Reads)
    (r : Option Nat) (m' : State) : Prop :=
  match r with
  | none => Refused m p m' ∧ ¬ AllRead d reads
  | some q => q = p ∧ Accepted m p dev d m' ∧ AllRead d reads

/-- The state once `a` and `b` blocks were taken for the maps. -/
def State.withMaps (m : State) (p : Nat) (dev : UInt16) (a b : Nat) : State where
  super := Function.update m.super p { m.super p with
    imap := fill (fun _ => none) dev 0 2 a, zmap := fill (fun _ => none) dev 0 (2 + a) b }
  count := taken (taken m.count dev 2 a) dev (2 + a) b
  data  := m.data

/-- What the two loops took is what is in the two arrays. -/
theorem count_withMaps (m : State) (p : Nat) (dev : UInt16) {a b : Nat} (ha : a ≤ mapSlots)
    (hb : b ≤ mapSlots) (y : Ptr) : (m.withMaps p dev a b).count y =
      m.count y + ((m.withMaps p dev a b).super p).entries.count (some y) := by
  show taken (taken m.count dev 2 a) dev (2 + a) b y = _
  simp only [State.withMaps, Super.entries, Function.update_self, List.count_append, count_fill,
    Nat.min_eq_left ha, Nat.min_eq_left hb]
  unfold taken
  split_ifs <;> omega

theorem fill_some {dev : UInt16} {block k i : Nat} (hi : i < k) :
    fill (fun _ => none) dev 0 block k i = some (dev, block + i) := by
  simp [fill, hi]

theorem fill_none {dev : UInt16} {block k i : Nat} (hi : k ≤ i) :
    fill (fun _ => none) dev 0 block k i = none := by
  simp [fill, Nat.not_lt_of_le hi]

theorem loops_spec {reads : Reads} (hi : Fits reads.imap (m.super p).imapBlocks.toNat)
    (hz : Fits reads.zmap (m.super p).zmapBlocks.toNat) {Q : Option Nat → State → Prop}
    {E : Fault → State → Prop} (hQ : ∀ a b, a = passed reads.imap (m.super p).imapBlocks.toNat 0 →
      b = passed reads.zmap (m.super p).zmapBlocks.toNat 0 →
      wp (if 2 + a + b ≠ 2 + (m.super p).imapBlocks.toNat + (m.super p).zmapBlocks.toNat then do
          let m ← get
          brelseAll (m.super p).entries
          modify fun m => (m.setDev p 0).setLock p false
          return none
        else do
          let m ← get
          markFirst ((m.super p).imap 0)
          markFirst ((m.super p).zmap 0)
          modify fun m => m.setLock p false
          return some p) Q E (m.withMaps p dev a b)) :
    wp (readMaps p dev reads) Q E m := by
  unfold readMaps
  simp only [wp_bind, wp_modify, wp_get, State.setSuper, Function.update_self]
  refine wp_mono (readMap_spec (k := .imap) (hi.imp (fun h => by omega) ?_) ?_) ?_ fun _ _ he => he.elim
  · rintro ⟨j, hj, hfail⟩
    exact ⟨j, Nat.zero_le j, hj, hfail⟩
  · intro j _
    simp [Super.map]
  rintro _ m₁ ⟨rfl, rfl⟩
  refine wp_mono (readMap_spec (k := .zmap) (hz.imp (fun h => by omega) ?_) ?_) ?_ fun _ _ he => he.elim
  · rintro ⟨j, hj, hfail⟩
    exact ⟨j, Nat.zero_le j, hj, hfail⟩
  · intro j _
    simp [State.filled, Super.map, Super.setMap]
  rintro _ m₂ ⟨rfl, rfl⟩
  simp only [State.filled, Super.map, Super.setMap, Function.update_self, Function.update_idem]
  exact hQ _ _ rfl rfl

/-- **The maps are read**: all of them, or what was taken is released. -/
theorem readMaps_bounded {reads : Reads} (hb : Bounded (m.super p).toDSuper reads)
    (hdev : (m.super p).dev = dev) :
    wp (readMaps p dev reads) (Outcome m p dev (m.super p).toDSuper reads)
      (fun _ _ => False) m := by
  obtain ⟨hi, hz, hone⟩ := hb
  refine loops_spec hi hz ?_
  rintro a b rfl rfl
  have ha := passed_fits hi
  have hb := passed_fits hz
  have hale := passed_le reads.imap (m.super p).imapBlocks.toNat 0
  have hble := passed_le reads.zmap (m.super p).zmapBlocks.toNat 0
  have hread : ∀ (ok : Nat → Bool) n, passed ok n 0 = n ↔ ∀ j, j < n → ok j = true := by
    intro ok n
    rw [passed_all]
    simp
  by_cases hall : AllRead (m.super p).toDSuper reads
  · -- all blocks are there
    obtain ⟨hipos, hzpos⟩ := hone hall
    rw [(hread _ _).mpr hall.1] at ha ⊢
    rw [(hread _ _).mpr hall.2] at hb ⊢
    rw [if_neg (by omega)]
    simp only [wp_bind, wp_get, State.withMaps, Function.update_self, fill_some hipos,
      fill_some hzpos, markFirst, wp_modify, wp_pure, State.setLock, State.setSuper,
      Function.update_idem]
    refine ⟨rfl, ⟨fun q hq => ?_, ?_, ?_, ?_, ⟨?_, ?_, ?_, ?_⟩, ?_, ?_⟩, hall⟩
    · exact Function.update_of_ne hq _ _
    · simp
    · simpa using hdev
    · simp
    · simpa using ha
    · simpa using hb
    · intro i hi
      simp only [Function.update_self] at hi ⊢
      simp [fill_some hi]
    · intro i hi
      simp only [Function.update_self] at hi ⊢
      simp [fill_some hi]
    · intro i hi
      simpa using fill_none hi
    · intro i hi
      simpa using fill_none hi
  · -- something is missing
    have hless : 2 + passed reads.imap (m.super p).imapBlocks.toNat 0 +
        passed reads.zmap (m.super p).zmapBlocks.toNat 0 ≠
        2 + (m.super p).imapBlocks.toNat + (m.super p).zmapBlocks.toNat := by
      intro heq
      exact hall ⟨(hread _ _).mp (by omega), (hread _ _).mp (by omega)⟩
    rw [if_pos hless]
    simp only [wp_bind, wp_get]
    have hcount := count_withMaps m p dev ha hb
    refine wp_mono (brelseAll_spec _ fun x => ?_) ?_ fun _ _ he => he
    · have hx := hcount x
      omega
    · rintro _ m' rfl
      simp only [wp_modify, wp_pure]
      refine ⟨⟨fun q hq => ?_, ?_, ?_, ?_⟩, hall⟩
      · simp [State.setLock, State.setDev, State.setSuper, State.withMaps, Function.update_of_ne hq]
      · simp [State.setLock, State.setDev, State.setSuper]
      · simp [State.setLock, State.setDev, State.setSuper]
      · funext x
        have hx := hcount x
        simp only [State.setLock, State.setDev, State.setSuper]
        omega

/-- The maps do not fit, or there is no first block to mark. -/
theorem readMaps_unbounded {reads : Reads} (hb : ¬ Bounded (m.super p).toDSuper reads) :
    wp (readMaps p dev reads) (fun _ _ => False) (fun e _ => e = .outside ∨ e = .null) m := by
  by_cases hi : Fits reads.imap (m.super p).imapBlocks.toNat
  · by_cases hz : Fits reads.zmap (m.super p).zmapBlocks.toNat
    · -- a map without blocks
      have hall : AllRead (m.super p).toDSuper reads := by
        by_contra hnot
        exact hb ⟨hi, hz, fun h => absurd h hnot⟩
      have hread : ∀ (ok : Nat → Bool) n, (∀ j, j < n → ok j = true) → passed ok n 0 = n :=
        fun ok n h => passed_all.mpr fun j _ hj => h j (by omega)
      refine loops_spec hi hz ?_
      rintro a b rfl rfl
      rw [hread _ _ hall.1, hread _ _ hall.2, if_neg (by omega)]
      simp only [wp_bind, wp_get, State.withMaps, Function.update_self]
      by_cases h0 : (m.super p).imapBlocks.toNat = 0
      · rw [fill_none (Nat.le_of_eq h0)]
        exact Or.inr rfl
      · have hz0 : (m.super p).zmapBlocks.toNat = 0 := by
          by_contra hne
          exact hb ⟨hi, hz, fun _ => ⟨by omega, by omega⟩⟩
        rw [fill_some (by omega), fill_none (Nat.le_of_eq hz0)]
        exact Or.inr rfl
    · obtain ⟨hlong, hok⟩ := not_fits hz
      unfold readMaps
      simp only [wp_bind, wp_modify, wp_get, State.setSuper, Function.update_self]
      refine wp_mono (readMap_spec (k := .imap) (hi.imp (fun h => by omega) ?_) ?_) ?_
        fun _ _ he => he.elim
      · rintro ⟨j, hj, hfail⟩
        exact ⟨j, Nat.zero_le j, hj, hfail⟩
      · intro j _
        simp [Super.map]
      · intro _ m₁ _
        refine wp_mono (readMap_outside (Nat.zero_le _) (by omega) fun j _ => hok j)
          (fun _ _ h => h.elim) fun _ _ he => Or.inl he
  · obtain ⟨hlong, hok⟩ := not_fits hi
    unfold readMaps
    simp only [wp_bind, wp_modify, wp_get, State.setSuper, Function.update_self]
    exact wp_mono (readMap_outside (Nat.zero_le _) (by omega) fun j _ => hok j)
      (fun _ _ h => h.elim) fun _ _ he => Or.inl he

/-- A run that does harm does not end otherwise. -/
theorem harm {α : Type} {x : SM α} {Q : α → State → Prop} {E : Fault → State → Prop}
    (h : wp x (fun _ _ => False) (fun e _ => e = .outside ∨ e = .null) m) (hwp : wp x Q E m)
    (hE : ∀ m', ¬ E .outside m' ∧ ¬ E .null m') : False := by
  have hboth := wp_and h hwp
  unfold wp at hboth
  split at hboth
  · exact hboth.1
  · obtain ⟨rfl | rfl, he⟩ := hboth
    · exact (hE _).1 he
    · exact (hE _).2 he

/-- The slot once the super block of the disk is in it. -/
def State.started (m : State) (p : Nat) (dev : UInt16) : State :=
  m.setSuper p { m.super p with
    toDSuper := dSuper (m.data (dev, 1)), dev := dev, isup := none, imount := none, time := 0,
    lock := true, rdOnly := false, dirt := false }

theorem fillSuper_started {reads : Reads} {Q : Option Nat → State → Prop}
    {E : Fault → State → Prop} (hread : reads.super = true)
    (hmagic : (dSuper (m.data (dev, 1))).magic = superMagic) :
    wp (fillSuper p dev reads) Q E m ↔ wp (readMaps p dev reads) Q E (m.started p dev) := by
  unfold fillSuper bread brelse
  rw [if_pos hread]
  simp [State.setSuper, State.setLock, State.started, hmagic]

theorem fillSuper_refused {reads : Reads}
    (h : reads.super = false ∨ (dSuper (m.data (dev, 1))).magic ≠ superMagic) :
    wp (fillSuper p dev reads) (fun r m' => r = none ∧ Refused m p m') (fun _ _ => False) m := by
  unfold fillSuper bread brelse
  by_cases hread : reads.super = true
  · have hmagic := h.resolve_left (by simp [hread])
    rw [if_pos hread]
    simp only [State.setSuper, State.setLock, State.setDev, wp_bind, wp_modify, wp_pure, wp_get,
      Function.update_self, Function.update_idem, Nat.add_one_ne_zero, if_false, wp_set, ne_eq,
      hmagic, not_false_eq_true, if_true, Nat.add_sub_cancel, Function.update_eq_self, true_and]
    refine ⟨fun q hq => ?_, ?_, ?_, rfl⟩
    · simp [Function.update_of_ne hq]
    · simp
    · simp
  · rw [if_neg hread]
    simp only [State.setSuper, State.setLock, State.setDev, wp_bind, wp_modify, wp_pure,
      Function.update_self, Function.update_idem, true_and]
    refine ⟨fun q hq => ?_, ?_, ?_, rfl⟩
    · simp [Function.update_of_ne hq]
    · simp
    · simp

/-- The table between calls: nothing is locked, and what is mounted can be used. -/
structure Settled (m : State) : Prop where
  lock   : ∀ p, p < nrSuper → (m.super p).lock = false
  usable : ∀ p, p < nrSuper → (m.super p).dev ≠ 0 → Usable (m.super p)

/-- The map counts of the disk are not looked at. -/
def Unread (m : State) (dev : UInt16) (reads : Reads) : Prop :=
  dev = 0 ∨ (∃ p, p < nrSuper ∧ (m.super p).dev = dev) ∨
    (∀ p, p < nrSuper → (m.super p).dev ≠ 0) ∨ reads.super = false ∨
    (dSuper (m.data (dev, 1))).magic ≠ superMagic

/-- A call of `read_super` that stores nowhere else and follows no null pointer.
If it returns null, all slots are as free as they were and no buffer is held; if
not, the maps are in the arrays. -/
def Harmless (m : State) (dev : UInt16) (reads : Reads) : Prop :=
  wp (readSuper dev reads) (fun r m' => match r with
    | none => m'.count = m.count ∧
        ∀ q, q < nrSuper → (m'.super q).dev = (m.super q).dev ∧ (m'.super q).lock = false
    | some p => Usable (m'.super p)) (fun _ _ => False) m

theorem getSuper_some {q : Nat} (h : m.getSuper dev = some q) :
    q < nrSuper ∧ (m.super q).dev = dev ∧ dev ≠ 0 := by
  unfold State.getSuper at h
  split at h
  · cases h
  · next hdev =>
    have hmem := List.mem_of_find?_eq_some h
    have hq := List.find?_some h
    exact ⟨by simpa using hmem, by simpa using hq, hdev⟩

theorem getSuper_none (h : m.getSuper dev = none) (hdev : dev ≠ 0) {q : Nat} (hq : q < nrSuper) :
    (m.super q).dev ≠ dev := by
  unfold State.getSuper at h
  rw [if_neg hdev] at h
  have := List.find?_eq_none.mp h q (by simpa using hq)
  simpa using this

/-- `read_super` gets as far as the disk, on the free slot `p`. -/
theorem readSuper_fill {reads : Reads} {Q : Option Nat → State → Prop} {E : Fault → State → Prop}
    (hdev : dev ≠ 0) (hget : m.getSuper dev = none)
    (hfind : ((List.range nrSuper).find? fun p => (m.super p).dev == 0) = some p) :
    wp (readSuper dev reads) Q E m ↔ wp (fillSuper p dev reads) Q E m := by
  unfold readSuper
  simp [hdev, hget, hfind]

/-- **`read_super` on any disk.** It does no harm exactly if it does not get to
the map counts, or they are bounded: the loops end before the ninth entry, and
where all blocks are read there is a first one of each kind. -/
theorem read_super_harmless (hm : Settled m) (dev : UInt16) (reads : Reads) :
    Harmless m dev reads ↔ Unread m dev reads ∨ Bounded (dSuper (m.data (dev, 1))) reads := by
  unfold Harmless
  have hkept : wp (pure none : SM (Option Nat)) (fun r m' => match r with
      | none => m'.count = m.count ∧
          ∀ q, q < nrSuper → (m'.super q).dev = (m.super q).dev ∧ (m'.super q).lock = false
      | some p => Usable (m'.super p)) (fun _ _ => False) m :=
    ⟨rfl, fun q hq => ⟨rfl, hm.lock q hq⟩⟩
  by_cases hdev : dev = 0
  · unfold readSuper
    rw [wp_bind, wp_get, if_pos hdev]
    exact iff_of_true hkept (Or.inl (Or.inl hdev))
  cases hget : m.getSuper dev with
  | some q =>
    obtain ⟨hq, hqd, -⟩ := getSuper_some hget
    have husable := hm.usable q hq (hqd ▸ hdev)
    refine iff_of_true ?_ (Or.inl (Or.inr (Or.inl ⟨q, hq, hqd⟩)))
    unfold readSuper
    simpa [hdev, hget] using husable
  | none =>
    cases hfind : (List.range nrSuper).find? fun p => (m.super p).dev == 0 with
    | none =>
      have hfull : ∀ p, p < nrSuper → (m.super p).dev ≠ 0 := by
        intro p hp
        have := List.find?_eq_none.mp hfind p (by simpa using hp)
        simpa using this
      refine iff_of_true ?_ (Or.inl (Or.inr (Or.inr (Or.inl hfull))))
      unfold readSuper
      simp only [wp_bind, wp_get, if_neg hdev, hget, hfind]
      exact hkept
    | some p =>
      have hp : p < nrSuper := by simpa using List.mem_of_find?_eq_some hfind
      have hpd : (m.super p).dev = 0 := by simpa using List.find?_some hfind
      -- a slot that is free again
      have hback : ∀ m', Refused m p m' → m'.count = m.count ∧
          ∀ q, q < nrSuper → (m'.super q).dev = (m.super q).dev ∧ (m'.super q).lock = false := by
        intro m' hr
        refine ⟨hr.count, fun q hq => ?_⟩
        by_cases hqp : q = p
        · rw [hqp, hr.dev, hpd]
          exact ⟨rfl, hr.lock⟩
        · rw [hr.others q hqp]
          exact ⟨rfl, hm.lock q hq⟩
      rw [readSuper_fill hdev hget hfind]
      by_cases hunread : reads.super = false ∨ (dSuper (m.data (dev, 1))).magic ≠ superMagic
      · refine iff_of_true ?_ (Or.inl (Or.inr (Or.inr (Or.inr hunread))))
        refine wp_mono (fillSuper_refused hunread) ?_ fun _ _ he => he
        rintro _ m' ⟨rfl, hr⟩
        exact hback m' hr
      · rw [not_or, not_not, Bool.not_eq_false] at hunread
        rw [fillSuper_started hunread.1 hunread.2]
        have hdisk : ((m.started p dev).super p).toDSuper = dSuper (m.data (dev, 1)) := by
          simp [State.started, State.setSuper]
        have hothers : ∀ q, q ≠ p → (m.started p dev).super q = m.super q := fun q hq =>
          Function.update_of_ne hq _ _
        have hnot : ¬ Unread m dev reads := by
          rintro (h | ⟨q, hq, h⟩ | h | h | h)
          · exact hdev h
          · exact getSuper_none hget hdev hq h
          · exact h p hp hpd
          · rw [hunread.1] at h
            cases h
          · exact h hunread.2
        rw [or_iff_right hnot]
        constructor
        · intro hwp
          by_contra hb
          exact harm (readMaps_unbounded (hdisk.symm ▸ hb)) hwp fun _ => ⟨id, id⟩
        · intro hb
          rw [← hdisk] at hb
          refine wp_mono (readMaps_bounded hb (by simp [State.started, State.setSuper])) ?_
            fun _ _ he => he
          intro r m' hout
          cases r with
          | none =>
            obtain ⟨hr, -⟩ := hout
            exact hback m' ⟨fun q hq => (hr.others q hq).trans (hothers q hq), hr.dev, hr.lock,
              hr.count⟩
          | some q =>
            obtain ⟨rfl, hacc, -⟩ := hout
            exact hacc.usable

/-! ## mount_root -/

/-- The maps have a bit for every zone and every inode. -/
def Counted (d : DSuper) : Prop :=
  d.nzones.toNat ≤ 8192 * d.zmapBlocks.toNat ∧ d.ninodes.toNat < 8192 * d.imapBlocks.toNat

theorem countFree_spec {map : Nat → Option Ptr} {n : Nat} (hn : n ≤ mapSlots)
    (hmap : ∀ i, i < n → map i ≠ none) {i free : Nat} (hi : i ≤ 8192 * n) :
    wp (countFree map i free) (fun _ m' => m' = m) (fun _ _ => False) m := by
  induction i generalizing free with
  | zero => rfl
  | succ i ih =>
    have hlt : i >>> 13 < n := by
      rw [Nat.shiftRight_eq_div_pow]
      omega
    obtain ⟨bh, hbh⟩ := Option.ne_none_iff_exists'.mp (hmap _ hlt)
    unfold countFree
    rw [if_neg (by omega), hbh]
    simp only [wp_bind, wp_get]
    exact ih (by omega)

/-- The first entry that is looked at is not there. -/
theorem countFree_null {map : Nat → Option Ptr} {n : Nat} (hmap : ∀ i, n ≤ i → map i = none)
    {i free : Nat} (hi : 8192 * n < i) :
    wp (countFree map i free) (fun _ _ => False) (fun e _ => e = .outside ∨ e = .null) m := by
  cases i with
  | zero => omega
  | succ i =>
    have hle : n ≤ i >>> 13 := by
      rw [Nat.shiftRight_eq_div_pow]
      omega
    unfold countFree
    by_cases hout : mapSlots ≤ i >>> 13
    · rw [if_pos hout]
      exact Or.inl rfl
    · rw [if_neg hout, hmap _ hle]
      exact Or.inr rfl

/-- A start of the system whose counting loops do no harm either. It may still
end in one of the panics of `mount_root`. -/
def RootHarmless (m : State) (rootDev : UInt16) (reads : Reads) : Prop :=
  wp (mountRoot rootDev reads) (fun _ _ => True) (fun e _ => e = .noRoot ∨ e = .noRootInode) m

/-- The end of `mount_root`, once `read_super` has returned. -/
theorem counts_harmless {p : Nat} {d : DSuper} {reads : Reads} (h : Accepted m' p dev d m) :
    wp (if reads.root then do
        let m ← get
        let blocks ← countFree (m.super p).zmap (m.super p).nzones.toNat 0
        let inodes ← countFree (m.super p).imap ((m.super p).ninodes.toNat + 1) 0
        return (blocks, inodes)
      else throw .noRootInode) (fun _ _ => True) (fun e _ => e = .noRoot ∨ e = .noRootInode) m ↔
      (reads.root = true → Counted d) := by
  obtain ⟨-, hdisk, -, -, husable, himap, hzmap⟩ := h
  subst hdisk
  by_cases hroot : reads.root = true
  swap
  · rw [if_neg hroot]
    exact iff_of_true (Or.inr rfl) fun h => absurd h hroot
  have hcalm : ∀ _ : State, ¬ (Fault.outside = .noRoot ∨ Fault.outside = .noRootInode) ∧
      ¬ (Fault.null = .noRoot ∨ Fault.null = .noRootInode) := fun _ => by simp
  rw [if_pos hroot]
  simp only [hroot, true_implies]
  by_cases hz : (m.super p).nzones.toNat ≤ 8192 * (m.super p).zmapBlocks.toNat
  · have hzones : ∀ {Q : Nat → State → Prop} {E : Fault → State → Prop}, (∀ n, Q n m) →
        wp (countFree (m.super p).zmap (m.super p).nzones.toNat 0) Q E m := fun hQ =>
      wp_mono (countFree_spec husable.zmap_le husable.zmap hz) (fun n _ he => he ▸ hQ n)
        fun _ _ he => he.elim
    by_cases hi : (m.super p).ninodes.toNat < 8192 * (m.super p).imapBlocks.toNat
    · refine iff_of_true ?_ ⟨hz, hi⟩
      simp only [wp_bind, wp_get]
      exact hzones fun n => wp_mono (countFree_spec husable.imap_le husable.imap hi)
        (fun _ _ _ => trivial) fun _ _ he => he.elim
    · refine iff_of_false (fun hwp => harm ?_ hwp hcalm) fun hc => hi hc.2
      simp only [wp_bind, wp_get]
      exact hzones fun n => wp_mono (countFree_null himap (by omega)) (fun _ _ h => h.elim)
        fun _ _ he => he
  · refine iff_of_false (fun hwp => harm ?_ hwp hcalm) fun hc => hz hc.1
    simp only [wp_bind, wp_get]
    exact wp_mono (countFree_null hzmap (by omega)) (fun _ _ h => h.elim) fun _ _ he => he

/-- **`mount_root` on any disk.** The loops over the maps do no harm exactly if
`read_super` does none, and the maps it returns have a bit for every zone and
every inode. -/
theorem mount_root_harmless (m : State) (rootDev : UInt16) (reads : Reads) :
    RootHarmless m rootDev reads ↔
      rootDev = 0 ∨ reads.super = false ∨ (dSuper (m.data (rootDev, 1))).magic ≠ superMagic ∨
      (Bounded (dSuper (m.data (rootDev, 1))) reads ∧
        (AllRead (dSuper (m.data (rootDev, 1))) reads → reads.root = true →
          Counted (dSuper (m.data (rootDev, 1))))) := by
  have hcalm : ∀ _ : State, ¬ (Fault.outside = .noRoot ∨ Fault.outside = .noRootInode) ∧
      ¬ (Fault.null = .noRoot ∨ Fault.null = .noRootInode) := fun _ => by simp
  obtain ⟨m₀, hm₀⟩ : ∃ m₀, m₀ = { m with
    super := fun p => { m.super p with dev := 0, lock := false } } := ⟨_, rfl⟩
  have hdata : m₀.data = m.data := by rw [hm₀]
  have hfree : ∀ p, (m₀.super p).dev = 0 := fun p => by rw [hm₀]
  unfold RootHarmless mountRoot
  simp only [wp_bind, wp_modify]
  rw [← hm₀, ← hdata]
  clear hm₀ hdata
  by_cases hdev : rootDev = 0
  · refine iff_of_true ?_ (Or.inl hdev)
    unfold readSuper
    simp [hdev]
  have hget : m₀.getSuper rootDev = none := by
    unfold State.getSuper
    rw [if_neg hdev, List.find?_eq_none]
    intro p _
    simp [hfree, Ne.symm hdev]
  have hfind : ((List.range nrSuper).find? fun p => (m₀.super p).dev == 0) = some 0 := by
    simp [hfree, nrSuper, List.range_succ]
  rw [readSuper_fill hdev hget hfind]
  by_cases hunread : reads.super = false ∨
      (dSuper (m₀.data (rootDev, 1))).magic ≠ superMagic
  · refine iff_of_true ?_ (Or.inr (hunread.imp_right Or.inl))
    refine wp_mono (fillSuper_refused hunread) ?_ fun _ _ he => he.elim
    rintro _ m' ⟨rfl, -⟩
    exact Or.inl rfl
  rw [not_or, not_not, Bool.not_eq_false] at hunread
  have hdisk : ((m₀.started 0 rootDev).super 0).toDSuper = dSuper (m₀.data (rootDev, 1)) := by
    simp [State.started, State.setSuper]
  rw [fillSuper_started hunread.1 hunread.2, or_iff_right hdev,
    or_iff_right (by simp [hunread.1]), or_iff_right (by simp [hunread.2])]
  by_cases hb : Bounded (dSuper (m₀.data (rootDev, 1))) reads
  swap
  · refine iff_of_false (fun hwp => ?_) fun hc => hb hc.1
    exact harm (readMaps_unbounded (hdisk.symm ▸ hb)) hwp hcalm
  rw [and_iff_right hb]
  rw [← hdisk] at hb
  have hslot : ((m₀.started 0 rootDev).super 0).dev = rootDev := by
    simp [State.started, State.setSuper]
  have hmaps := readMaps_bounded hb hslot
  rw [hdisk] at hmaps
  cases hx : readMaps 0 rootDev reads (m₀.started 0 rootDev) with
  | error e m' => exact (wp_error hmaps hx).elim
  | ok r m' =>
    rw [wp_of_ok hx]
    have hout := wp_ok hmaps hx
    cases r with
    | none => exact iff_of_true (Or.inl rfl) fun hall => absurd hall hout.2
    | some q =>
      obtain ⟨rfl, hacc, hall⟩ := hout
      exact (counts_harmless hacc).trans (by simp [hall])

/-- **Super blocks from an unknown disk**: which of them `read_super` and
`mount_root` take without harm. The counts of the maps are believed, and index
arrays of eight. -/
theorem super_block_harmless (hm : Settled m) (dev : UInt16) (reads : Reads) :
    (Harmless m dev reads ↔ Unread m dev reads ∨ Bounded (dSuper (m.data (dev, 1))) reads) ∧
    (RootHarmless m dev reads ↔
      dev = 0 ∨ reads.super = false ∨ (dSuper (m.data (dev, 1))).magic ≠ superMagic ∨
      (Bounded (dSuper (m.data (dev, 1))) reads ∧
        (AllRead (dSuper (m.data (dev, 1))) reads → reads.root = true →
          Counted (dSuper (m.data (dev, 1)))))) :=
  ⟨read_super_harmless hm dev reads, mount_root_harmless m dev reads⟩

/-- Nothing is mounted, and block 1 of every device has 64 inodes and 100 zones,
`n` blocks of the inode map and one of the zone map. -/
def freshTable (n : UInt8) : State where
  super _ := ⟨⟨0, 0, 0, 0, 0, 0, 0, 0⟩, fun _ => none, fun _ => none, 0, none, none, 0, false, false,
    false⟩
  count _ := 0
  data  _ i := match i with
    | 0 => 64
    | 2 => 100
    | 4 => n
    | 6 => 1
    | 16 => 0x7F
    | 17 => 0x13
    | _ => 0

def allReads : Reads := ⟨true, fun _ => true, fun _ => true, true⟩

theorem settled_freshTable (n : UInt8) : Settled (freshTable n) :=
  ⟨fun _ _ => rfl, fun _ _ h => absurd rfl h⟩

theorem super_block_harmless_one :
    Harmless (freshTable 1) 0x301 allReads ∧ RootHarmless (freshTable 1) 0x301 allReads := by
  have hbounded : Bounded (dSuper ((freshTable 1).data (0x301, 1))) allReads :=
    ⟨Or.inl (by decide), Or.inl (by decide), fun _ => by decide⟩
  obtain ⟨hread, hroot⟩ := super_block_harmless (settled_freshTable 1) 0x301 allReads
  refine ⟨hread.mpr (Or.inr hbounded), hroot.mpr (Or.inr (Or.inr (Or.inr ⟨hbounded, ?_⟩)))⟩
  exact fun _ _ => ⟨by decide, by decide⟩

/-- A disk that says that it has nine blocks of the inode map: the ninth is
stored behind `s_imap`. -/
theorem super_block_nine : ¬ Harmless (freshTable 9) 0x301 allReads ∧
    ∃ m', readSuper 0x301 allReads (freshTable 9) = .error .outside m' := by
  have hunread : ¬ Unread (freshTable 9) 0x301 allReads := by
    rintro (h | ⟨p, -, h⟩ | h | h | h)
    · exact absurd h (by decide)
    · exact absurd (show (0 : UInt16) = 0x301 from h) (by decide)
    · exact h 0 (by decide) rfl
    · exact absurd h (by decide)
    · exact h (by decide)
  have hbounded : ¬ Bounded (dSuper ((freshTable 9).data (0x301, 1))) allReads := by
    rintro ⟨hle | ⟨j, -, h⟩, -⟩
    · exact absurd hle (by decide)
    · cases h
  refine ⟨fun h => ?_, _, rfl⟩
  exact ((read_super_harmless (settled_freshTable 9) 0x301 allReads).mp h).elim hunread hbounded

end Linux011.Fs.ReadSuper
