import Linux011.Fs.FileRuns
import Linux011.Fs.Room
import Mathlib.Order.Interval.Finset.Nat

/-!
# Regular files — offsets and the limit of `_bmap`

A file has at most `7 + 512 + 512 * 512` blocks. `sys_lseek` lets a position go
further, and only `_bmap` looks at the limit: it panics.

* `fileWrite_none` — the loop of `file_write` gets to the limit exactly if
  nothing stops it before: a block that cannot be read, or a full disk;
* `Sane` — what holds between calls, without a word about what is in the files;
* `offsets_safe` — runs.
-/

namespace Linux011.Fs.FileData

open ZoneMap

variable {n b rounds : Nat} {ok : Nat → Nat → Bool}

/-- The size of the largest file. -/
def limit : Nat := maxBlock * blockSize

/-- The empty places on the ways to the blocks from `b` on. -/
def missing (s : State) (n b : Nat) : Finset Pos :=
  ((Finset.Ico b maxBlock).biUnion fun c => (way c).toFinset).filter (s.at n · = 0)

/-- Nothing stops a write of `len` bytes at `pos` before the limit: all blocks
from there on can be read, and there are zones for what is missing. The first
round is number `rounds - 1`. -/
def Unstopped (s : State) (n pos len rounds : Nat) (ok : Nat → Nat → Bool) : Prop :=
  limit ≤ pos ∨ limit < pos + len ∧
    (∀ i, pos / blockSize + i < maxBlock →
      Readable (pos / blockSize + i) (ok (rounds - 1 - i)) ∧ ok (rounds - 1 - i) 2 = true) ∧
    (missing s n (pos / blockSize)).card ≤ room s

/-! ## Zones for several blocks -/

theorem mem_missing {s : State} {p : Pos} : p ∈ missing s n b ↔
    (∃ c, (b ≤ c ∧ c < maxBlock) ∧ p ∈ way c) ∧ s.at n p = 0 := by
  simp [missing]

theorem way_nodup (b : Nat) : (way b).Nodup := by
  unfold way
  split_ifs <;> simp

theorem way_valid (hb : b < maxBlock) {p : Pos} (hp : p ∈ way b) : p.Valid := by
  unfold way at hp
  split_ifs at hp with h1 h2
  · rw [List.mem_singleton.mp hp]
    exact (by omega : b < 9)
  · simp at hp
    rcases hp with rfl | rfl
    · exact (by omega : 7 < 9)
    · exact h2
  · simp at hp
    rcases hp with rfl | rfl | rfl
    · exact (by omega : 8 < 9)
    · exact shift_lt hb
    · exact ⟨shift_lt hb, mask_lt _⟩

theorem missing_limit (s : State) (n : Nat) : missing s n maxBlock = ∅ := by
  simp [missing]

/-- The way to the first of the blocks is part of what they need. -/
theorem needs_le_missing (s : State) (n : Nat) (hb : b < maxBlock) :
    needs s n (way b) ≤ (missing s n b).card := by
  have hsub : ((way b).filter (s.at n · = 0)).toFinset ⊆ missing s n b := by
    intro p hp
    simp only [List.mem_toFinset, List.mem_filter, decide_eq_true_eq] at hp
    exact mem_missing.mpr ⟨⟨b, ⟨Nat.le_refl b, hb⟩, hp.1⟩, hp.2⟩
  have hcard := Finset.card_le_card hsub
  rw [List.toFinset_card_of_nodup ((way_nodup b).filter _)] at hcard
  rw [needs, List.countP_eq_length_filter]
  exact hcard

/-- What is missing once the first block is there. -/
theorem missing_step {s t : State} (hb : b < maxBlock)
    (hwhole : ∀ p ∈ way b, t.at n p ≠ 0)
    (hothers : ∀ p, p.Valid → p ∉ way b → t.at n p = s.at n p) :
    (missing s n b).card = needs s n (way b) + (missing t n (b + 1)).card := by
  have hsplit : missing s n b =
      ((way b).filter (s.at n · = 0)).toFinset ∪ missing t n (b + 1) := by
    ext p
    simp only [mem_missing, Finset.mem_union, List.mem_toFinset, List.mem_filter,
      decide_eq_true_eq]
    constructor
    · rintro ⟨⟨c, ⟨hbc, hc⟩, hp⟩, h₀⟩
      by_cases hw : p ∈ way b
      · exact Or.inl ⟨hw, h₀⟩
      · have hcb : b ≠ c := fun heq => hw (heq ▸ hp)
        refine Or.inr ⟨⟨c, ⟨by omega, hc⟩, hp⟩, ?_⟩
        rw [hothers p (way_valid hc hp) hw, h₀]
    · rintro (⟨hw, h₀⟩ | ⟨⟨c, ⟨hbc, hc⟩, hp⟩, h₀⟩)
      · exact ⟨⟨b, ⟨Nat.le_refl b, hb⟩, hw⟩, h₀⟩
      · have hw : p ∉ way b := fun hw => hwhole p hw h₀
        refine ⟨⟨c, ⟨by omega, hc⟩, hp⟩, ?_⟩
        rw [← hothers p (way_valid hc hp) hw, h₀]
  have hdisj : Disjoint ((way b).filter (s.at n · = 0)).toFinset (missing t n (b + 1)) := by
    rw [Finset.disjoint_left]
    intro p hp hp'
    simp only [List.mem_toFinset, List.mem_filter] at hp
    exact hwhole p hp.1 (mem_missing.mp hp').2
  rw [hsplit, Finset.card_union_of_disjoint hdisj,
    List.toFinset_card_of_nodup ((way_nodup b).filter _), needs, List.countP_eq_length_filter]

theorem putBytes_bits (s : State) (z i : Nat) (buf : List Byte) :
    (putBytes s z i buf).bits = s.bits := by
  induction buf generalizing s i with
  | nil => rfl
  | cons v buf ih => exact ih (setByte s z i v) (i + 1)

/-- The bytes that are put into a block of data change no place. -/
theorem putBytes_places {s : State} (h : Fair s) (hn : s.file n = true) (hb : b < maxBlock)
    {z : Nat} (hz : s.at n (dataPos b) = z) (hz₀ : z ≠ 0) (i : Nat) (buf : List Byte) :
    (∀ p, p.Valid → (putBytes s z i buf).at n p = s.at n p) ∧
      room (putBytes s z i buf) = room s := by
  subst hz
  obtain ⟨hinode, hzmap, hfirst, hnzones, hblock⟩ := putBytes_frame s (s.at n (dataPos b)) i buf
  refine ⟨fun p hp => ?_, room_congr (putBytes_bits s _ i buf) hzmap hfirst hnzones⟩
  exact at_congr_index hinode
    (fun m r hr hindex _ => hblock _ (data_ne_index h hn hb hz₀ hr hindex)) ⟨hn, hp⟩

/-! ## The loop of file_write -/

theorem limit_le_iff {pos : Nat} : limit ≤ pos ↔ maxBlock ≤ pos / blockSize := by
  unfold limit blockSize
  omega

theorem bmapIo_limit {s : State} {create : Bool} {ok : Nat → Bool} (h : maxBlock ≤ b) :
    bmapIo s n b create ok = none := by
  unfold bmapIo
  rw [if_pos (show 7 + 512 + 512 * 512 ≤ b from h)]

/-- A write that ends in the block it is in does not get to the limit. -/
theorem not_unstopped {s : State} {pos len : Nat} (hb : pos / blockSize < maxBlock)
    (hlen : len ≤ blockSize - pos % blockSize) : ¬ Unstopped s n pos len rounds ok := by
  have hlim : pos + len ≤ limit := by
    unfold limit blockSize at *
    omega
  have hlt : pos < limit := by
    unfold limit blockSize at *
    omega
  rintro (hle | ⟨hbeyond, -⟩) <;> omega

/-- One chunk is put, up to the end of the block: what is left to do gets to the
limit exactly if all of it does. -/
theorem unstopped_next {s t : State} {pos len : Nat} (hb : pos / blockSize < maxBlock)
    (hlen : blockSize - pos % blockSize < len)
    (hok : Readable (pos / blockSize) (ok rounds) ∧ ok rounds 2 = true)
    (hwhole : ∀ p ∈ way (pos / blockSize), t.at n p ≠ 0)
    (hothers : ∀ p, p.Valid → p ∉ way (pos / blockSize) → t.at n p = s.at n p)
    (hroom : room t + needs s n (way (pos / blockSize)) = room s) :
    Unstopped t n (pos + (blockSize - pos % blockSize)) (len - (blockSize - pos % blockSize)) rounds
      ok ↔ Unstopped s n pos len (rounds + 1) ok := by
  have hmiss := missing_step hb hwhole hothers
  have hnext : (pos + (blockSize - pos % blockSize)) / blockSize = pos / blockSize + 1 := by
    unfold blockSize
    omega
  have hnot : ¬ limit ≤ pos := by
    rw [limit_le_iff]
    omega
  unfold Unstopped
  rw [hnext, or_iff_right hnot]
  have hsum : limit < pos + (blockSize - pos % blockSize) + (len - (blockSize - pos % blockSize)) ↔
      limit < pos + len := by omega
  rw [hsum]
  have hreads : (∀ i, pos / blockSize + i < maxBlock →
        Readable (pos / blockSize + i) (ok (rounds + 1 - 1 - i)) ∧
          ok (rounds + 1 - 1 - i) 2 = true) ↔
      ∀ i, pos / blockSize + 1 + i < maxBlock →
        Readable (pos / blockSize + 1 + i) (ok (rounds - 1 - i)) ∧
          ok (rounds - 1 - i) 2 = true := by
    constructor
    · intro h i hi
      have := h (i + 1) (by omega)
      rwa [show rounds + 1 - 1 - (i + 1) = rounds - 1 - i by omega,
        show pos / blockSize + (i + 1) = pos / blockSize + 1 + i by omega] at this
    · intro h i hi
      cases i with
      | zero => exact hok
      | succ i =>
        have := h i (by omega)
        rwa [show rounds + 1 - 1 - (i + 1) = rounds - 1 - i by omega,
          show pos / blockSize + (i + 1) = pos / blockSize + 1 + i by omega]
  rw [hreads]
  by_cases hlast : pos / blockSize + 1 = maxBlock
  · -- it was the last block
    rw [hlast, missing_limit] at hmiss
    have hend : limit ≤ pos + (blockSize - pos % blockSize) := by
      unfold limit blockSize at *
      omega
    have hbeyond : limit < pos + len := by omega
    constructor
    · intro _
      refine ⟨hbeyond, fun i hi => absurd hi (by omega), ?_⟩
      rw [hmiss, Finset.card_empty]
      omega
    · exact fun _ => Or.inl hend
  · have hmore : ¬ limit ≤ pos + (blockSize - pos % blockSize) := by
      unfold limit blockSize at *
      omega
    rw [or_iff_right hmore, hmiss]
    refine and_congr_right fun _ => and_congr_right fun _ => ?_
    omega

/-- **`file_write` panics** exactly if there is something to write and nothing
stops it before the limit. -/
theorem fileWrite_none (ok : Nat → Nat → Bool) : ∀ (rounds : Nat) (s : Vol) (pos : Nat)
    (buf : List Byte), Fair s.disk → s.disk.file n = true → buf.length ≤ rounds →
    (fileWrite n ok rounds s pos buf = none ↔
      buf ≠ [] ∧ Unstopped s.disk n pos buf.length rounds ok) := by
  intro rounds
  induction rounds with
  | zero =>
    intro s pos buf _ _ hlen
    have hnil : buf = [] := List.length_eq_zero_iff.mp (Nat.le_zero.mp hlen)
    simp [fileWrite, hnil]
  | succ rounds ih =>
    intro s pos buf h hn hlen
    rw [fileWrite]
    by_cases hbuf : buf = []
    · simp [hbuf]
    rw [if_neg hbuf]
    simp only [ne_eq, hbuf, not_false_eq_true, true_and]
    by_cases hbig : maxBlock ≤ pos / blockSize
    · -- the panic
      rw [bmapIo_limit hbig]
      simp only [true_iff]
      exact Or.inl (limit_le_iff.mpr hbig)
    have hb : pos / blockSize < maxBlock := Nat.lt_of_not_le hbig
    have hnot : ¬ limit ≤ pos := fun hle => hbig (limit_le_iff.mp hle)
    obtain ⟨disk, block, hmap, hr⟩ := bmapIo_create h hn hb (ok rounds)
    rw [hmap]
    dsimp only
    -- no zone: the write ends, and says what it has done
    by_cases hzero : block = 0
    · rw [if_pos hzero]
      simp only [reduceCtorEq, false_iff]
      rintro (hle | ⟨-, hreads, hroom⟩)
      · exact hnot hle
      · rcases hr.full.mp hzero with hunread | hless
        · exact hunread (hreads 0 hb).1
        · have hneeds := needs_le_missing s.disk n hb
          omega
    have hread : Readable (pos / blockSize) (ok rounds) := by
      by_contra hunread
      exact hzero (hr.full.mpr (Or.inl hunread))
    rw [if_neg hzero]
    by_cases hfail : ok rounds 2 = false
    · rw [if_pos hfail]
      simp only [reduceCtorEq, false_iff]
      rintro (hle | ⟨-, hreads, -⟩)
      · exact hnot hle
      · have := (hreads 0 hb).2
        rw [show rounds + 1 - 1 - 0 = rounds by omega, hfail] at this
        exact Bool.false_ne_true this
    rw [if_neg hfail]
    have hdata := hr.data hread
    have hnd : disk.file n = true := (file_congr (hr.mode n)).trans hn
    obtain ⟨c, hc⟩ : ∃ c, c = min (blockSize - pos % blockSize) buf.length := ⟨_, rfl⟩
    rw [← hc]
    have hmod : pos % blockSize < blockSize := Nat.mod_lt _ (by decide)
    have htake : (buf.take c).length = c := by
      rw [List.length_take]
      omega
    obtain ⟨hfair, hinode, -⟩ := content_putBytes hr.fair hnd hb hdata hzero (buf.take c)
      (by rw [htake]; omega)
    obtain ⟨hplaces, hroom⟩ := putBytes_places hr.fair hnd hb hdata hzero (pos % blockSize)
      (buf.take c)
    have hnp : (putBytes disk block (pos % blockSize) (buf.take c)).file n = true := by
      rw [← hnd]
      exact file_congr (by rw [hinode])
    rw [ih _ _ _ hfair hnp (by rw [List.length_drop]; omega), List.length_drop]
    by_cases hend : buf.length ≤ blockSize - pos % blockSize
    · -- the last chunk
      have hdrop : buf.drop c = [] := List.drop_eq_nil_iff.mpr (by omega)
      simp only [hdrop, ne_eq, not_true_eq_false, false_and, false_iff]
      exact not_unstopped hb hend
    · have hdrop : buf.drop c ≠ [] := by
        rw [ne_eq, List.drop_eq_nil_iff]
        omega
      simp only [ne_eq, hdrop, not_false_eq_true, true_and]
      rw [show c = blockSize - pos % blockSize by omega]
      refine unstopped_next hb (by omega) ⟨hread, by simpa using hfail⟩ ?_ ?_ ?_
      · intro p hp
        rw [show blockSize - pos % blockSize = c by omega, hplaces p (way_valid hb hp)]
        exact hr.whole hzero p hp
      · intro p hp hw
        rw [show blockSize - pos % blockSize = c by omega, hplaces p hp]
        exact hr.others n p ⟨hn, hp⟩ fun _ => hw
      · rw [show blockSize - pos % blockSize = c by omega, hroom]
        exact hr.room hzero

/-- `file_read` reads no more than it is asked for. -/
theorem fileRead_length {s : State} {ok : Nat → Nat → Bool} : ∀ (rounds pos left : Nat)
    (l : List Byte), fileRead s n ok rounds pos left = some l → l.length ≤ left := by
  intro rounds
  induction rounds with
  | zero =>
    intro pos left l hl
    cases hl
    exact Nat.zero_le _
  | succ rounds ih =>
    intro pos left l hl
    rw [fileRead] at hl
    by_cases hleft : left = 0
    · rw [if_pos hleft] at hl
      cases hl
      exact Nat.zero_le _
    rw [if_neg hleft] at hl
    cases hmap : bmapIo s n (pos / blockSize) false (ok rounds) with
    | none =>
      rw [hmap] at hl
      cases hl
    | some y =>
      rw [hmap] at hl
      dsimp only at hl
      split_ifs at hl
      · cases hl
        exact Nat.zero_le _
      · obtain ⟨rest, hrest, rfl⟩ := Option.map_eq_some_iff.mp hl
        have hlen := ih _ _ rest hrest
        simp only [chunk, List.length_append, List.length_map, List.length_range]
        omega

/-! ## Calls -/

/-- Where a write begins. -/
def Files.start (s : Files) (f : File) : Nat := if f.append then s.size f.inode else f.pos

/-- A write that nothing stops before the limit. -/
def Files.Overruns (s : Files) : Op → Prop
  | .write fd count _ ok => ∃ f, s.filp fd = some f ∧ 0 < count.toInt ∧
      Unstopped s.disk f.inode (s.start f) count.toInt.toNat count.toInt.toNat ok
  | _ => False

/-- What holds between calls: descriptors are those of regular files, a position
is a 32-bit number that is not negative, and no file is too large. -/
structure Sane (s : Files) : Prop where
  fair   : Fair s.disk
  opened : ∀ fd f, s.filp fd = some f → s.regular f.inode = true ∧ f.pos < 0x80000000
  bound  : ∀ n, s.regular n = true → s.size n ≤ limit

variable {s s' : Files} {op : Op} {r : Result}

theorem limit_lt : limit < 0x80000000 := by decide

theorem Sane.setPos (S : Sane s) {fd : Nat} {f : File} (hf : s.filp fd = some f) {pos : Nat}
    (hpos : pos < 0x80000000) : Sane (s.setPos fd f pos) := by
  refine ⟨S.fair, fun fd' f' hf' => ?_, S.bound⟩
  have hf' : Function.update s.filp fd (some { f with pos := pos }) fd' = some f' := hf'
  by_cases hfd : fd' = fd
  · subst hfd
    rw [Function.update_self] at hf'
    cases hf'
    exact ⟨(S.opened fd' f hf).1, hpos⟩
  · rw [Function.update_of_ne hfd] at hf'
    exact S.opened fd' f' hf'

/-- **`sys_read`** does not panic: it reads nothing from the end of the file on. -/
theorem Sane.read (S : Sane s) (fd : Nat) (count : BitVec 32) (ok : Nat → Nat → Bool) :
    ∃ s' r, sysRead s fd count.toInt ok = some (s', r) ∧ Sane s' := by
  have hhigh : count.toInt < 0x80000000 := BitVec.toInt_lt
  have hlim := limit_lt
  unfold sysRead
  cases hf : s.filp fd with
  | none => exact ⟨s, _, rfl, S⟩
  | some f =>
    obtain ⟨hregular, hpos⟩ := S.opened fd f hf
    have hbound := S.bound _ hregular
    dsimp only
    by_cases hneg : count.toInt < 0
    · exact ⟨s, _, if_pos hneg, S⟩
    rw [if_neg hneg]
    by_cases hzero : count.toInt = 0
    · exact ⟨s, _, if_pos hzero, S⟩
    rw [if_neg hzero, if_neg (by rw [regular_file hregular]; decide)]
    obtain ⟨c, hc⟩ := Int.eq_ofNat_of_zero_le (Int.not_lt.mp hneg)
    rw [hc, count_eq (by omega) hpos (by omega)]
    by_cases hin : f.pos ≤ s.size f.inode
    · rw [if_pos hin]
      by_cases hmin : min c (s.size f.inode - f.pos) = 0
      · exact ⟨s, _, if_pos (by omega), S⟩
      rw [if_neg (by omega), Int.toNat_natCast]
      obtain ⟨l, hread⟩ := fileRead_total s.disk f.inode ok (min c (s.size f.inode - f.pos)) f.pos
        (min c (s.size f.inode - f.pos)) (by unfold limit at hbound; omega)
      have hlen := fileRead_length _ _ _ l hread
      rw [hread]
      cases l with
      | nil => exact ⟨s, _, rfl, S⟩
      | cons v l => exact ⟨_, _, rfl, S.setPos hf (by omega)⟩
    · rw [if_neg hin, if_pos (by split <;> omega)]
      exact ⟨s, _, rfl, S⟩

/-- **`sys_lseek`** lets no position be negative. -/
theorem Sane.seek (S : Sane s) (fd : Nat) (offset : BitVec 32) (origin : Nat) :
    Sane (sysLseek s fd offset.toInt origin).1 := by
  have hhigh : offset.toInt < 0x80000000 := BitVec.toInt_lt
  have hwrap : ∀ a : Int, int32 a < 0x80000000 := by
    intro a
    unfold int32 Int.bmod
    dsimp only
    split_ifs <;> omega
  unfold sysLseek
  cases hf : s.filp fd with
  | none => exact S
  | some f =>
    have hseek : ∀ pos : Int, pos < 0x80000000 →
        Sane (if pos < 0 then (s, Result.value einval)
          else (s.setPos fd f pos.toNat, .value pos)).1 := by
      intro pos hpos
      split_ifs
      · exact S
      · exact S.setPos hf (by omega)
    match origin with
    | 0 => exact hseek _ hhigh
    | 1 => exact hseek _ (hwrap _)
    | 2 => exact hseek _ (hwrap _)
    | _ + 3 => exact S

/-- **`sys_write`** panics exactly if nothing stops it before the limit. If it
does not, no more is written than the file may have. -/
theorem Sane.write (S : Sane s) (fd : Nat) (count : BitVec 32) (src : Nat → Byte)
    (ok : Nat → Nat → Bool) :
    (sysWrite s fd count.toInt src ok = none ↔ s.Overruns (.write fd count src ok)) ∧
      ∀ s' r, sysWrite s fd count.toInt src ok = some (s', r) → Sane s' ∧
        ∀ f, s.filp fd = some f → 0 < count.toInt → limit < s.start f + count.toInt.toNat →
          ∃ v, r = .value v ∧ v < count.toInt := by
  have hhigh : count.toInt < 0x80000000 := BitVec.toInt_lt
  have hlim := limit_lt
  unfold sysWrite Files.Overruns
  cases hf : s.filp fd with
  | none =>
    refine ⟨by simp [hf], fun s' r hstep => ?_⟩
    cases hstep
    exact ⟨S, fun f hf' => by cases hf'⟩
  | some f =>
    obtain ⟨hregular, hpos⟩ := S.opened fd f hf
    have hfile := regular_file hregular
    have hbound := S.bound _ hregular
    dsimp only
    -- nothing is written for a count that is not positive
    by_cases hneg : count.toInt < 0
    · rw [if_pos hneg]
      refine ⟨by simp; omega, fun s' r hstep => ?_⟩
      cases hstep
      exact ⟨S, fun _ _ hc => by omega⟩
    rw [if_neg hneg]
    by_cases hzero : count.toInt = 0
    · rw [if_pos hzero]
      refine ⟨by simp [hzero], fun s' r hstep => ?_⟩
      cases hstep
      exact ⟨S, fun _ _ hc => by omega⟩
    rw [if_neg hzero, if_neg (by rw [hregular]; decide)]
    obtain ⟨start, hstart⟩ : ∃ start, start = s.start f := ⟨_, rfl⟩
    obtain ⟨buf, hbuf⟩ : ∃ buf, buf = (List.range count.toInt.toNat).map src := ⟨_, rfl⟩
    have hlen : buf.length = count.toInt.toNat := by rw [hbuf, List.length_map, List.length_range]
    have hnil : buf ≠ [] := List.ne_nil_of_length_pos (by omega)
    rw [show (if f.append = true then s.size f.inode else f.pos) = start from hstart.symm, ← hbuf]
    have hnone := fileWrite_none ok count.toInt.toNat s.toVol start buf S.fair hfile (by omega)
    rw [hlen] at hnone
    constructor
    · constructor
      · intro hstep
        have hw : fileWrite f.inode ok count.toInt.toNat s.toVol start buf = none := by
          split at hstep
          · assumption
          · cases hstep
        exact ⟨f, hf, by omega, hstart ▸ (hnone.mp hw).2⟩
      · rintro ⟨f', hf', -, hun⟩
        obtain rfl := Option.some.inj (hf.symm.trans hf')
        rw [hnone.mpr ⟨hnil, hstart ▸ hun⟩]
    · intro s' r hstep
      cases hw : fileWrite f.inode ok count.toInt.toNat s.toVol start buf with
      | none =>
        rw [hw] at hstep
        cases hstep
      | some y =>
        obtain ⟨v, pos'⟩ := y
        rw [hw] at hstep
        dsimp only at hstep
        obtain ⟨k, hk, rfl, W⟩ := fileWrite_spec _ _ _ _ v pos' S.fair hfile hw
        have hvreg : ∀ m, v.regular m = s.regular m := fun m => regular_congr (W.mode m)
        have Sv : Sane { s with toVol := v } := by
          refine ⟨W.fair, fun fd' f' hf' => ?_, fun m hm => ?_⟩
          · obtain ⟨h1, h2⟩ := S.opened fd' f' hf'
            exact ⟨(hvreg _).trans h1, h2⟩
          · have hbm := S.bound m ((hvreg m).symm.trans hm)
            show v.size m ≤ limit
            rw [W.size m]
            split_ifs with hand
            · have := W.bound hand.2
              unfold limit at *
              omega
            · exact hbm
        have hend : 0 < k → start + k ≤ limit := W.bound
        have hnew : f.append = false → start + k < 0x80000000 := by
          intro happ
          by_cases hk0 : k = 0
          · have : start = f.pos := by simp [hstart, Files.start, happ]
            omega
          · have := hend (Nat.pos_of_ne_zero hk0)
            omega
        have hshort : limit < start + count.toInt.toNat →
            (if start + k = start then (-1 : Int) else ((start + k : Nat) : Int) - start) <
              count.toInt := by
          intro hbeyond
          split_ifs
          · omega
          · have := hend (by omega)
            omega
        by_cases happ : f.append = true
        · rw [if_pos happ] at hstep
          cases hstep
          refine ⟨Sv, fun f' hf' _ hbeyond => ?_⟩
          cases hf'
          exact ⟨_, rfl, hshort (hstart ▸ hbeyond)⟩
        · rw [if_neg happ] at hstep
          cases hstep
          refine ⟨Sv.setPos (f := f) hf (hnew (by simpa using happ)), fun f' hf' _ hbeyond => ?_⟩
          cases hf'
          exact ⟨_, rfl, hshort (hstart ▸ hbeyond)⟩

/-- **`truncate`**, whatever index blocks it cannot read. -/
theorem Sane.truncate (S : Sane s) (m : Nat) (ok : Nat → Bool) :
    ∃ s' r, truncateFile s m ok = some (s', r) ∧ Sane s' := by
  unfold truncateFile
  by_cases hm : s.disk.file m = true
  · obtain ⟨t, heq, hfair, hmode, -⟩ := truncate_kept S.fair hm ok
    have hreg : ∀ k, (⟨t, Function.update s.size m 0⟩ : Vol).regular k = s.regular k := fun k =>
      regular_congr (v := s.toVol) (hmode k)
    rw [heq, if_pos hm]
    refine ⟨_, _, rfl, hfair, fun fd f hf => ?_, fun k hk => ?_⟩
    · obtain ⟨h1, h2⟩ := S.opened fd f hf
      exact ⟨(hreg _).trans h1, h2⟩
    · show Function.update s.size m 0 k ≤ limit
      rw [Function.update_apply]
      split_ifs
      · exact Nat.zero_le _
      · exact S.bound k ((hreg k).symm.trans hk)
  · have heq : FileData.truncate ok s.disk m = some s.disk := by
      unfold FileData.truncate
      rw [if_neg hm]
    rw [heq, if_neg hm]
    exact ⟨s, _, rfl, S⟩

/-! ## Runs -/

theorem step_none (S : Sane s) (op : Op) : s.step op = none ↔ s.Overruns op := by
  cases op with
  | read fd count ok =>
    obtain ⟨s', r, heq, -⟩ := S.read fd count ok
    simp [Files.step, Files.Overruns, heq]
  | write fd count src ok => exact (S.write fd count src ok).1
  | lseek fd offset origin => simp [Files.step, Files.Overruns]
  | truncate m ok =>
    obtain ⟨s', r, heq, -⟩ := S.truncate m ok
    simp [Files.step, Files.Overruns, heq]

theorem sane_step (S : Sane s) (h : s.step op = some (s', r)) : Sane s' := by
  cases op with
  | read fd count ok =>
    obtain ⟨t, r', heq, hS⟩ := S.read fd count ok
    cases heq.symm.trans h
    exact hS
  | write fd count src ok => exact ((S.write fd count src ok).2 s' r h).1
  | lseek fd offset origin =>
    have heq : (sysLseek s fd offset.toInt origin).1 = s' := congrArg Prod.fst (Option.some.inj h)
    exact heq ▸ S.seek fd offset origin
  | truncate m ok =>
    obtain ⟨t, r', heq, hS⟩ := S.truncate m ok
    cases heq.symm.trans h
    exact hS

/-- A call that does not run into the limit. -/
def Files.Goes (s s' : Files) : Prop := ∃ op r, ¬ s.Overruns op ∧ s.step op = some (s', r)

theorem sane_reach (S : Sane s) (h : Relation.ReflTransGen Files.Goes s s') : Sane s' := by
  induction h with
  | refl => exact S
  | tail _ hstep ih =>
    obtain ⟨op, r, -, heq⟩ := hstep
    exact sane_step ih heq

/-- **Offsets.** In every state that reads, writes and seeks lead to, with any
32-bit arguments and any blocks unreadable, no position is negative; a call
panics exactly if it is a write that nothing stops before the limit; and a
write beyond the limit that does not panic fails or is cut short. -/
theorem offsets_safe (S : Sane s) (h : Relation.ReflTransGen Files.Goes s s') :
    (∀ fd f, s'.filp fd = some f → f.pos < 0x80000000) ∧
    (∀ op, s'.step op = none ↔ s'.Overruns op) ∧
    ∀ fd count src ok f t r, s'.filp fd = some f → 0 < count.toInt →
      limit < s'.start f + count.toInt.toNat → s'.step (.write fd count src ok) = some (t, r) →
      ∃ v, r = .value v ∧ v < count.toInt := by
  have S' := sane_reach S h
  refine ⟨fun fd f hf => (S'.opened fd f hf).2, step_none S', ?_⟩
  intro fd count src ok f t r hf hc hbeyond hstep
  exact ((S'.write fd count src ok).2 t r hstep).2 f hf hc hbeyond

/-- An empty file on an empty volume, open for writing. -/
def emptyFile : Files where
  disk := blank
  size _ := 0
  filp fd := if fd = 3 then some ⟨2, 0, false⟩ else none

theorem sane_emptyFile : Sane emptyFile := by
  refine ⟨good_blank.fair, fun fd f hf => ?_, fun _ _ => Nat.zero_le _⟩
  simp only [emptyFile, Option.ite_none_right_eq_some, Option.some.injEq] at hf
  obtain ⟨-, rfl⟩ := hf
  exact ⟨by decide, by decide⟩

/-- A seek to 1000. -/
def soughtFile : Files := emptyFile.setPos 3 ⟨2, 0, false⟩ 1000

/-- 60 bytes, for two blocks. -/
def writeSixty : Op := .write 3 60 (fun _ => 7) fun _ _ => true

/-- After a seek to 1000 and a write of 60 bytes the file and the position are at 1060, and
from there no read panics, at whatever position and of however much. -/
theorem offsets_safe_written : ∃ s', Relation.ReflTransGen Files.Goes emptyFile s' ∧
    s'.size 2 = 1060 ∧ (s'.filp 3).map File.pos = some 1060 ∧ (∀ fd f, s'.filp fd = some f → f.pos < 0x80000000) ∧
    ∀ fd count ok, s'.step (.read fd count ok) ≠ none := by
  have hseek : emptyFile.step (.lseek 3 1000 0) = some (soughtFile, .value 1000) := rfl
  have hsought : Relation.ReflTransGen Files.Goes emptyFile soughtFile := .single ⟨_, _, id, hseek⟩
  have hwritten : (soughtFile.step writeSixty).map (fun r => (r.1.size 2, (r.1.filp 3).map File.pos)) =
      some (1060, some 1060) := by decide +kernel
  obtain ⟨⟨s', r⟩, hwrite, hend⟩ := Option.map_eq_some_iff.mp hwritten
  obtain ⟨hsize, hpos⟩ := Prod.mk.inj hend
  have hno : ¬ soughtFile.Overruns writeSixty := fun h => by
    rw [(step_none (sane_reach sane_emptyFile hsought) writeSixty).mpr h] at hwrite
    cases hwrite
  have hrun : Relation.ReflTransGen Files.Goes emptyFile s' := hsought.tail ⟨_, _, hno, hwrite⟩
  obtain ⟨hsafe, hnone, -⟩ := offsets_safe sane_emptyFile hrun
  exact ⟨s', hrun, hsize, hpos, hsafe, fun fd count ok h => (hnone (.read fd count ok)).mp h⟩

/-- A seek to the limit, and a write of one byte: the panic of `_bmap`. -/
theorem offsets_panic : ∃ s', emptyFile.step (.lseek 3 268966912 0) = some (s', .value 268966912) ∧
    s'.step (.write 3 1 (fun _ => 0) fun _ _ => true) = none := by
  have hS := sane_emptyFile.seek 3 268966912 0
  refine ⟨_, rfl, (step_none hS _).mpr ⟨⟨2, 268966912, false⟩, rfl, by decide, Or.inl ?_⟩⟩
  show 268966912 ≤ 268966912
  exact Nat.le_refl _

end Linux011.Fs.FileData
