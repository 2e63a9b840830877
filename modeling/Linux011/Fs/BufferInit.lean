import Linux011.Lib.Links
import Mathlib.Algebra.Order.Group.Nat

/-!
# `buffer_init`

The buffer heads grow upwards from the end of the kernel and the blocks
downwards from the end of the buffer memory, past the hole between 640 KB and
1 MB. Addresses are 32 bits wide.

* `Filled`, `fill_step` — the heads and blocks of the first rounds;
* `initLoop_spec` — the loop ends where the next block would meet the heads;
* `bufferInit_partitions` — the blocks, and the heads in one ring.
-/

namespace Linux011.Fs.BufferInit

open Linux011.Lib

/-- `sizeof(struct buffer_head)`. -/
def headSize : Nat := 36
def blockSize : Nat := 1024
def nrHash : Nat := 307

def add (a : Nat) (n : Nat) : Nat := (a + n) % 2 ^ 32
def sub (a : Nat) (n : Nat) : Nat := (a + (2 ^ 32 - n)) % 2 ^ 32

/-- `struct buffer_head`; 0 is the null pointer. -/
structure Head where
  bData     : Nat
  bBlocknr  : Nat
  bDev      : Nat
  bUptodate : Nat
  bDirt     : Nat
  bCount    : Nat
  bLock     : Nat
  bWait     : Nat
  bPrev     : Nat
  bNext     : Nat
  bPrevFree : Nat
  bNextFree : Nat

/-- The variables `h` and `b`, and what they lead to. -/
structure State where
  h         : Nat
  b         : Nat
  heads     : Nat → Head
  nrBuffers : Nat
  freeList  : Nat
  hashTable : Nat → Nat

/-- A head as the loop fills it; only `b_blocknr` is left. -/
def setHead (h b : Nat) (old : Head) : Head where
  bData     := b
  bBlocknr  := old.bBlocknr
  bDev      := 0
  bUptodate := 0
  bDirt     := 0
  bCount    := 0
  bLock     := 0
  bWait     := 0
  bPrev     := 0
  bNext     := 0
  bPrevFree := sub h headSize
  bNextFree := add h headSize

/-- A round of the loop. -/
def State.round (s : State) (b : Nat) : State :=
  { s with
    heads     := Function.update s.heads s.h (setHead s.h b (s.heads s.h))
    h         := add s.h headSize
    nrBuffers := s.nrBuffers + 1
    b         := if b = 0x100000 then 0xA0000 else b }

/-- `while ( (b -= BLOCK_SIZE) >= ((void *) (h+1)) )`, for `fuel` tests at most. -/
def initLoop : Nat → State → Option State
  | 0, _ => none
  | fuel + 1, s =>
    let b := sub s.b blockSize
    if add s.h headSize ≤ b then initLoop fuel (s.round b) else some { s with b := b }

/-- `b` before the loop. -/
def firstEnd (bufferEnd : Nat) : Nat := if bufferEnd = 1 <<< 20 then 640 * 1024 else bufferEnd

/-- The first head and the last one are linked. -/
def closeRing (heads : Nat → Head) (first last : Nat) : Nat → Head :=
  let heads := Function.update heads first { heads first with bPrevFree := last }
  Function.update heads last { heads last with bNextFree := first }

/-- After the loop: the heads are closed to a ring and the hash table is emptied. -/
def State.close (s : State) (startBuffer : Nat) : State :=
  let h := sub s.h headSize
  { s with
    h         := h
    heads     := closeRing s.heads startBuffer h
    freeList  := startBuffer
    hashTable := fun i => if i < nrHash then 0 else s.hashTable i }

/-- `buffer_init`, with what is in memory at `start_buffer` before it. -/
def bufferInit (fuel startBuffer bufferEnd : Nat) (heads : Nat → Head) (hashTable : Nat → Nat) : Option State :=
  (initLoop fuel ⟨startBuffer, firstEnd bufferEnd, heads, 0, 0, hashTable⟩).map fun s => s.close startBuffer

/-! ## What is meant -/

/-- The address of a head. -/
def headAt (startBuffer : Nat) (k : Nat) : Nat := startBuffer + headSize * k

def State.data (s : State) (startBuffer : Nat) (k : Nat) : Nat := (s.heads (headAt startBuffer k)).bData

/-- Outside of the video memory and the ROM. -/
def OffHole (x : Nat) : Prop := x + blockSize ≤ 0xA0000 ∨ 0x100000 ≤ x

def Apart (x y : Nat) : Prop := x + blockSize ≤ y ∨ y + blockSize ≤ x

/-- Blocks and heads share the memory, and there is no room for more of them. -/
structure Partitioned (startBuffer bufferEnd : Nat) (s : State) : Prop where
  pos    : 0 < s.nrBuffers
  inside : ∀ k < s.nrBuffers, startBuffer ≤ s.data startBuffer k ∧ s.data startBuffer k + blockSize ≤ bufferEnd
  blocks : ∀ j < s.nrBuffers, ∀ k < s.nrBuffers, j ≠ k → Apart (s.data startBuffer j) (s.data startBuffer k)
  heads  : ∀ j < s.nrBuffers, ∀ k < s.nrBuffers, headAt startBuffer j + headSize ≤ s.data startBuffer k
  hole   : ∀ k < s.nrBuffers, OffHole (s.data startBuffer k)
  full   : ∀ x, headAt startBuffer s.nrBuffers + headSize ≤ x → x + blockSize ≤ bufferEnd → OffHole x →
    ∃ k < s.nrBuffers, ¬ Apart x (s.data startBuffer k)
  ring   : Ring (fun h => some (s.heads h).bNextFree) (fun h => some (s.heads h).bPrevFree)
    ((List.range s.nrBuffers).map (headAt startBuffer))
  first  : s.freeList = headAt startBuffer 0

variable {startBuffer bufferEnd : Nat} {s : State} {k : Nat}

/-! ## The blocks -/

/-- `b` before the test of round `k`: the end of its block. -/
def endAt (bufferEnd : Nat) : Nat → Nat
  | 0 => firstEnd bufferEnd
  | k + 1 => if endAt bufferEnd k - blockSize = 0x100000 then 0xA0000 else endAt bufferEnd k - blockSize

/-- The test of round `k`. -/
def Fits (startBuffer bufferEnd : Nat) (k : Nat) : Prop :=
  headAt startBuffer k + headSize ≤ endAt bufferEnd k - blockSize

/-- The block of round `k` is off the hole, and there is no wrap around. -/
structure Ends (startBuffer bufferEnd : Nat) (k : Nat) : Prop where
  dvd  : blockSize ∣ endAt bufferEnd k
  pos  : blockSize ≤ endAt bufferEnd k
  le   : endAt bufferEnd k ≤ bufferEnd
  zone : endAt bufferEnd k ≤ 0xA0000 ∨ 0x100000 < endAt bufferEnd k
  room : headAt startBuffer k + headSize < 2 ^ 32

theorem ends_zero (hstart : startBuffer < 640 * 1024) (hend : 1 <<< 20 ≤ bufferEnd) (hdvd : blockSize ∣ bufferEnd) :
    Ends startBuffer bufferEnd 0 := by
  have hmb : (1 <<< 20 : Nat) = 1048576 := by decide
  have hfirst : endAt bufferEnd 0 = firstEnd bufferEnd := rfl
  have hhead : headAt startBuffer 0 = startBuffer := by simp [headAt]
  unfold blockSize at hdvd
  unfold firstEnd at hfirst
  constructor
  · unfold blockSize
    split at hfirst <;> omega
  · unfold blockSize
    split at hfirst <;> omega
  · split at hfirst <;> omega
  · split at hfirst <;> omega
  · unfold headSize
    omega

theorem headAt_succ (startBuffer : Nat) (k : Nat) : headAt startBuffer (k + 1) = headAt startBuffer k + headSize := by
  unfold headAt
  rw [Nat.mul_succ, Nat.add_assoc]

/-- The next block lies below. -/
theorem endAt_succ_le (E : Ends startBuffer bufferEnd k) : endAt bufferEnd (k + 1) + blockSize ≤ endAt bufferEnd k := by
  have hpos := E.pos
  rw [endAt]
  unfold blockSize at *
  split_ifs <;> omega

theorem ends_succ (hlt : bufferEnd < 2 ^ 32) (E : Ends startBuffer bufferEnd k) (hfit : Fits startBuffer bufferEnd k) :
    Ends startBuffer bufferEnd (k + 1) := by
  have hdvd := E.dvd
  have hle := E.le
  have hzone := E.zone
  have hnext := headAt_succ startBuffer k
  have hend : endAt bufferEnd (k + 1) = if endAt bufferEnd k - blockSize = 0x100000 then 0xA0000
      else endAt bufferEnd k - blockSize := rfl
  unfold Fits at hfit
  unfold blockSize headSize at *
  constructor
  · unfold blockSize
    split at hend <;> omega
  · unfold blockSize
    split at hend <;> omega
  · split at hend <;> omega
  · split at hend <;> omega
  · unfold headSize
    omega

/-- Every place off the hole that is apart from the blocks so far is below the next. -/
theorem below_end {n : Nat} (hE : ∀ k ≤ n, Ends startBuffer bufferEnd k) {x : Nat}
    (hx : x + blockSize ≤ bufferEnd) (hoff : OffHole x)
    (hapart : ∀ k < n, Apart x (endAt bufferEnd k - blockSize)) : x + blockSize ≤ endAt bufferEnd n := by
  unfold OffHole at hoff
  induction n with
  | zero =>
    show x + blockSize ≤ firstEnd bufferEnd
    unfold firstEnd
    unfold blockSize at *
    split_ifs <;> omega
  | succ n ih =>
    have hbelow := ih (fun k hk => hE k (Nat.le_succ_of_le hk)) fun k hk => hapart k (Nat.lt_succ_of_lt hk)
    have hthis := hapart n (Nat.lt_succ_self n)
    have hpos := (hE n (Nat.le_succ n)).pos
    have hstep : endAt bufferEnd (n + 1) = if endAt bufferEnd n - blockSize = 0x100000 then 0xA0000
        else endAt bufferEnd n - blockSize := rfl
    unfold Apart at hthis
    unfold blockSize at *
    split at hstep <;> omega

/-! ## The loop -/

/-- After `k` rounds. -/
structure Filled (startBuffer bufferEnd : Nat) (k : Nat) (s : State) : Prop where
  h     : s.h = headAt startBuffer k
  count : s.nrBuffers = k
  heads : ∀ j < k, ∃ old, s.heads (headAt startBuffer j) =
    setHead (headAt startBuffer j) (endAt bufferEnd j - blockSize) old

theorem sub_eq {a n : Nat} (hle : n ≤ a) (hlt : a < 2 ^ 32) : sub a n = a - n := by
  unfold sub
  omega

theorem add_eq {a n : Nat} (hlt : a + n < 2 ^ 32) : add a n = a + n := Nat.mod_eq_of_lt hlt

theorem headAt_ne {j : Nat} (h : j < k) : headAt startBuffer j ≠ headAt startBuffer k := by
  unfold headAt headSize
  omega

/-- One round. -/
theorem fill_step (F : Filled startBuffer bufferEnd k s) (E : Ends startBuffer bufferEnd k) :
    Filled startBuffer bufferEnd (k + 1) (s.round (endAt bufferEnd k - blockSize)) where
  h     := by
    show add s.h headSize = _
    rw [F.h, add_eq E.room, headAt_succ]
  count := congrArg (· + 1) F.count
  heads := by
    intro j hj
    show ∃ old, Function.update s.heads s.h _ (headAt startBuffer j) = _
    rw [F.h]
    by_cases hlast : j = k
    · rw [hlast, Function.update_self]
      exact ⟨_, rfl⟩
    · rw [Function.update_of_ne (headAt_ne (show j < k by omega))]
      exact F.heads j (by omega)

/-- The loop fills heads as long as the next block is above them, and ends there. -/
theorem initLoop_spec (hlt : bufferEnd < 2 ^ 32) {fuel : Nat} (F : Filled startBuffer bufferEnd k s)
    (hb : s.b = endAt bufferEnd k) (hE : ∀ j ≤ k, Ends startBuffer bufferEnd j)
    (hfit : ∀ j < k, Fits startBuffer bufferEnd j) (hfuel : endAt bufferEnd k < blockSize * fuel) :
    ∃ n s', initLoop fuel s = some s' ∧ Filled startBuffer bufferEnd n s' ∧ (∀ j ≤ n, Ends startBuffer bufferEnd j) ∧
      (∀ j < n, Fits startBuffer bufferEnd j) ∧ ¬ Fits startBuffer bufferEnd n := by
  induction fuel generalizing k s with
  | zero => omega
  | succ fuel ih =>
    have E := hE k le_rfl
    have hsub : sub s.b blockSize = endAt bufferEnd k - blockSize := by
      rw [hb]
      exact sub_eq E.pos (Nat.lt_of_le_of_lt E.le hlt)
    have hadd : add s.h headSize = headAt startBuffer k + headSize := by
      rw [F.h]
      exact add_eq E.room
    unfold initLoop
    dsimp only
    rw [hsub, hadd]
    by_cases hthis : headAt startBuffer k + headSize ≤ endAt bufferEnd k - blockSize
    · rw [if_pos hthis]
      have hnext := endAt_succ_le E
      have hb' : (s.round (endAt bufferEnd k - blockSize)).b = endAt bufferEnd (k + 1) := by rw [endAt, State.round]
      have hE' : ∀ j ≤ k + 1, Ends startBuffer bufferEnd j := by
        intro j hj
        rcases Nat.le_succ_iff.mp hj with hle | rfl
        · exact hE j hle
        · exact ends_succ hlt E hthis
      have hfit' : ∀ j < k + 1, Fits startBuffer bufferEnd j := by
        intro j hj
        rcases Nat.lt_succ_iff_lt_or_eq.mp hj with hlt | rfl
        · exact hfit j hlt
        · exact hthis
      exact ih (fill_step F E) hb' hE' hfit' (by rw [Nat.mul_succ] at hfuel; omega)
    · rw [if_neg hthis]
      exact ⟨k, _, rfl, ⟨F.h, F.count, F.heads⟩, hE, hfit, hthis⟩

theorem fits_zero (hroom : startBuffer + headSize + blockSize ≤ firstEnd bufferEnd) : Fits startBuffer bufferEnd 0 := by
  show headAt startBuffer 0 + headSize ≤ firstEnd bufferEnd - blockSize
  unfold headAt
  omega

/-- Blocks get lower from round to round. -/
theorem endAt_antitone {n : Nat} (hE : ∀ k ≤ n, Ends startBuffer bufferEnd k) {j : Nat} (hjk : j < k) (hk : k ≤ n) :
    endAt bufferEnd k + blockSize ≤ endAt bufferEnd j := by
  induction k with
  | zero => omega
  | succ k ih =>
    have hstep := endAt_succ_le (hE k (by omega))
    rcases Nat.lt_succ_iff_lt_or_eq.mp hjk with hlt | rfl
    · have hprev := ih hlt (by omega)
      omega
    · exact hstep

theorem closeRing_fields (heads : Nat → Head) (first last a : Nat) :
    (closeRing heads first last a).bData = (heads a).bData ∧
      (closeRing heads first last a).bNextFree = (if a = last then first else (heads a).bNextFree) ∧
      (closeRing heads first last a).bPrevFree = (if a = first then last else (heads a).bPrevFree) := by
  unfold closeRing
  dsimp only
  simp only [Function.update_apply]
  split_ifs <;> simp_all

/-- The heads after the loop has been closed to a ring. -/
theorem close_heads {n : Nat} (hpos : 0 < n) (hE : ∀ k ≤ n, Ends startBuffer bufferEnd k)
    (F : Filled startBuffer bufferEnd n s) {j : Nat} (hj : j < n) :
    ((s.close startBuffer).heads (headAt startBuffer j)).bData = endAt bufferEnd j - blockSize ∧
      ((s.close startBuffer).heads (headAt startBuffer j)).bNextFree =
        (if j + 1 = n then startBuffer else headAt startBuffer (j + 1)) ∧
      ((s.close startBuffer).heads (headAt startBuffer j)).bPrevFree =
        (if j = 0 then headAt startBuffer (n - 1) else headAt startBuffer (j - 1)) := by
  obtain ⟨old, hold⟩ := F.heads j hj
  have hback : sub s.h headSize = headAt startBuffer (n - 1) := by
    have hsucc := headAt_succ startBuffer (n - 1)
    rw [Nat.sub_add_cancel hpos] at hsucc
    have hn := (hE n le_rfl).room
    rw [F.h, sub_eq (by omega) (by omega)]
    omega
  have hroom := (hE j (by omega)).room
  have hlast : headAt startBuffer j = headAt startBuffer (n - 1) ↔ j + 1 = n := by
    unfold headAt headSize
    omega
  have hfirst : headAt startBuffer j = startBuffer ↔ j = 0 := by
    unfold headAt headSize
    omega
  have hnext : add (headAt startBuffer j) headSize = headAt startBuffer (j + 1) := by
    rw [add_eq hroom, headAt_succ]
  have hprev : j ≠ 0 → sub (headAt startBuffer j) headSize = headAt startBuffer (j - 1) := by
    intro h0
    have hsucc := headAt_succ startBuffer (j - 1)
    rw [Nat.sub_add_cancel (Nat.pos_of_ne_zero h0)] at hsucc
    rw [sub_eq (by omega) (by omega)]
    omega
  have hheads : (s.close startBuffer).heads = closeRing s.heads startBuffer (headAt startBuffer (n - 1)) := by
    rw [← hback, State.close]
  obtain ⟨hdata, hn, hp⟩ := closeRing_fields s.heads startBuffer (headAt startBuffer (n - 1)) (headAt startBuffer j)
  rw [hheads, hdata, hn, hp, hold, setHead]
  refine ⟨rfl, ?_, ?_⟩
  · rw [hnext]
    exact if_congr hlast rfl rfl
  · split_ifs with h h0 h0
    · rfl
    · exact absurd (hfirst.mp h) h0
    · exact absurd (hfirst.mpr h0) h
    · exact hprev h0

theorem partitioned_close {n : Nat} (hpos : 0 < n) (hE : ∀ k ≤ n, Ends startBuffer bufferEnd k)
    (hfit : ∀ k < n, Fits startBuffer bufferEnd k) (hlast : ¬ Fits startBuffer bufferEnd n)
    (F : Filled startBuffer bufferEnd n s) : Partitioned startBuffer bufferEnd (s.close startBuffer) := by
  have hcount : (s.close startBuffer).nrBuffers = n := by
    rw [State.close]
    exact F.count
  have hdata : ∀ k < n, (s.close startBuffer).data startBuffer k = endAt bufferEnd k - blockSize := by
    intro k hk
    rw [State.data]
    exact (close_heads hpos hE F hk).1
  have hnext : ∀ k < n, ((s.close startBuffer).heads (headAt startBuffer k)).bNextFree = _ :=
    fun k hk => (close_heads hpos hE F hk).2.1
  have hprev : ∀ k < n, ((s.close startBuffer).heads (headAt startBuffer k)).bPrevFree = _ :=
    fun k hk => (close_heads hpos hE F hk).2.2
  have hstart : startBuffer = headAt startBuffer 0 := by simp [headAt]
  constructor
  · rw [hcount]
    exact hpos
  · rw [hcount]
    intro k hk
    have hthis := hfit k hk
    have hle := (hE k hk.le).le
    have hone := (hE k hk.le).pos
    rw [hdata k hk]
    unfold Fits headAt at hthis
    omega
  · rw [hcount]
    intro j hj k hk hne
    rw [hdata j hj, hdata k hk]
    unfold Apart
    have honej := (hE j hj.le).pos
    have honek := (hE k hk.le).pos
    rcases Nat.lt_or_gt_of_ne hne with hlt | hgt
    · have hbelow := endAt_antitone hE hlt hk.le
      omega
    · have hbelow := endAt_antitone hE hgt hj.le
      omega
  · rw [hcount]
    intro j hj k hk
    rw [hdata k hk]
    rcases Nat.lt_or_ge k j with hlt | hge
    · have hbelow := endAt_antitone hE hlt hj.le
      have hthis := hfit j hj
      unfold Fits at hthis
      omega
    · have hthis := hfit k hk
      unfold Fits headAt headSize at hthis
      unfold headAt headSize
      omega
  · rw [hcount]
    intro k hk
    have hone := (hE k hk.le).pos
    have hdvd := (hE k hk.le).dvd
    rw [hdata k hk]
    unfold OffHole
    unfold blockSize at *
    rcases (hE k hk.le).zone with hlow | hhigh <;> omega
  · rw [hcount]
    intro x hfree hx hoff
    by_contra hnone
    have hbelow := below_end hE hx hoff fun k hk => by
      by_contra hnot
      exact hnone ⟨k, hk, by rwa [hdata k hk]⟩
    unfold Fits at hlast
    have hone := (hE n le_rfl).pos
    omega
  · rw [hcount]
    refine ring_range hpos (fun k hk => ⟨congrArg some ?_, congrArg some ?_⟩) ⟨congrArg some ?_, congrArg some ?_⟩
    · rw [hnext k (by omega), if_neg (by omega)]
    · rw [hprev (k + 1) hk, if_neg (by omega), Nat.add_sub_cancel]
    · rw [hnext (n - 1) (by omega), if_pos (by omega), ← hstart]
    · rw [hprev 0 hpos, if_pos rfl]
  · exact hstart

/-- **`buffer_init` partitions memory** between the end of the kernel and the end of the buffers:
each head has a block of its own, and none lies over a head, the kernel or the hole at 640 KB. -/
theorem bufferInit_partitions (hstart : startBuffer < 640 * 1024) (hend : 1 <<< 20 ≤ bufferEnd)
    (hdvd : blockSize ∣ bufferEnd) (hlt : bufferEnd < 2 ^ 32)
    (hroom : startBuffer + headSize + blockSize ≤ firstEnd bufferEnd) (heads : Nat → Head) (hashTable : Nat → Nat)
    {fuel : Nat} (hfuel : bufferEnd < fuel) :
    ∃ s, bufferInit fuel startBuffer bufferEnd heads hashTable = some s ∧ Partitioned startBuffer bufferEnd s := by
  have hE0 := ends_zero hstart hend hdvd
  have F0 : Filled startBuffer bufferEnd 0 ⟨startBuffer, firstEnd bufferEnd, heads, 0, 0, hashTable⟩ :=
    ⟨by simp [headAt], rfl, fun j hj => absurd hj (Nat.not_lt_zero j)⟩
  obtain ⟨n, s, hrun, F, hE, hfit, hlast⟩ := initLoop_spec hlt F0 rfl
    (fun j hj => Nat.le_zero.mp hj ▸ hE0) (fun j hj => absurd hj (Nat.not_lt_zero j))
    (show endAt bufferEnd 0 < blockSize * fuel by have hle := hE0.le; unfold blockSize; omega)
  have hpos : 0 < n := by
    refine Nat.pos_of_ne_zero fun h0 => hlast ?_
    rw [h0]
    exact fits_zero hroom
  refine ⟨s.close startBuffer, ?_, partitioned_close hpos hE hfit hlast F⟩
  unfold bufferInit
  rw [hrun, Option.map_some]

/-- Memory before `buffer_init`. -/
def zeroHead : Head := ⟨0, 0, 0, 0, 0, 0, 0, 0, 0, 0, 0, 0⟩

/-- A kernel of 128 KB and 4 MB for buffers. -/
theorem bufferInit_partitions_4M :
    ∃ s, bufferInit (2 ^ 23) 0x20000 0x400000 (fun _ => zeroHead) (fun _ => 0) = some s ∧
      Partitioned 0x20000 0x400000 s :=
  bufferInit_partitions (by decide) (by decide) ⟨4096, by decide⟩ (by decide) (by decide) _ _ (by decide)

end Linux011.Fs.BufferInit
