import Linux011.Fs.FileBlocks
import Mathlib.Data.List.GetD

/-!
# Regular files — sparse byte arrays

What files are to be: an array of bytes and a size for each inode, and a position
for each descriptor (`Spec`). The calls do to these what `Spec.Does` says, in
every run.

* `fileRead_spec`, `fileWrite_spec` — the loops, by induction on the rounds;
* `Inv` — the accounts are in order, and there is nothing behind the end of a file;
* `Inv.read`, `Inv.write`, `Inv.seek`, `Inv.truncate` — the calls;
* `files_refine` — runs.

A read that cannot read an index block takes what is behind it for a hole; the
runs looked at here have no such read.
-/

namespace Linux011.Fs.FileData

open ZoneMap

variable {n pos x : Nat} {ok : Nat → Nat → Bool}

/-! ## Transfers -/

theorem overwrite_nil (f : Nat → Byte) (p x : Nat) : overwrite f p [] x = f x := by
  unfold overwrite
  rw [if_neg (by rw [List.length_nil]; omega)]

theorem overwrite_append (f : Nat → Byte) (p : Nat) (a b : List Byte) (x : Nat) :
    overwrite (overwrite f p a) (p + a.length) b x = overwrite f p (a ++ b) x := by
  unfold overwrite
  rw [List.length_append]
  by_cases hb : p + a.length ≤ x ∧ x < p + a.length + b.length
  · rw [if_pos hb, if_pos ⟨by omega, by omega⟩, List.getD_append_right _ _ _ _ (by omega),
      show x - p - a.length = x - (p + a.length) by omega]
  · rw [if_neg hb]
    by_cases ha : p ≤ x ∧ x < p + a.length
    · rw [if_pos ha, if_pos ⟨by omega, by omega⟩, List.getD_append _ _ _ _ (by omega)]
    · rw [if_neg ha, if_neg (by omega)]

theorem overwrite_congr {f g : Nat → Byte} (p : Nat) (buf : List Byte) (h : f x = g x) :
    overwrite f p buf x = overwrite g p buf x := by
  unfold overwrite
  rw [h]

/-- A chunk is a piece of the file. -/
theorem chunk_eq (s : State) (n pos chars : Nat) (hchars : pos % blockSize + chars ≤ blockSize) :
    chunk s (s.at n (dataPos (pos / blockSize))) (pos % blockSize) chars =
      (List.range chars).map fun j => content s n (pos + j) := by
  unfold chunk content
  refine List.map_congr_left fun j hj => ?_
  have hj := List.mem_range.mp hj
  unfold blockSize at *
  rw [show (pos + j) / 1024 = pos / 1024 by omega, show (pos + j) % 1024 = pos % 1024 + j by omega]

/-- **`file_read`**: a piece of the file from the position on, all that is asked
for if every block can be read. -/
theorem fileRead_spec {s : State} (hok : ∀ r, ok r 0 = true ∧ ok r 1 = true) :
    ∀ (rounds pos left : Nat) (l : List Byte), fileRead s n ok rounds pos left = some l →
      l.length ≤ left ∧ l = (List.range l.length).map (fun j => content s n (pos + j)) ∧
        (left ≤ rounds → (∀ r, ok r 2 = true) → l.length = left) := by
  intro rounds
  induction rounds with
  | zero =>
    intro pos left l hl
    cases hl
    exact ⟨Nat.zero_le _, rfl, fun hle _ => (Nat.le_zero.mp hle).symm⟩
  | succ rounds ih =>
    intro pos left l hl
    rw [fileRead] at hl
    by_cases hleft : left = 0
    · rw [if_pos hleft] at hl
      cases hl
      exact ⟨Nat.zero_le _, rfl, fun _ _ => hleft.symm⟩
    rw [if_neg hleft] at hl
    cases hmap : bmapIo s n (pos / blockSize) false (ok rounds) with
    | none =>
      rw [hmap] at hl
      cases hl
    | some y =>
      obtain ⟨t, nr⟩ := y
      rw [hmap] at hl
      dsimp only at hl
      have hnr := bmapIo_read (hok rounds) hmap
      subst hnr
      split_ifs at hl with hfail
      · cases hl
        exact ⟨Nat.zero_le _, rfl, fun _ hdata => absurd (hdata rounds) (by rw [hfail.2]; exact Bool.false_ne_true)⟩
      · obtain ⟨rest, hrest, rfl⟩ := Option.map_eq_some_iff.mp hl
        obtain ⟨hlen, heq, hall⟩ := ih _ _ rest hrest
        have hpos : 0 < min (blockSize - pos % blockSize) left := by
          unfold blockSize
          omega
        have hchunk := chunk_eq s n pos (min (blockSize - pos % blockSize) left) (by unfold blockSize; omega)
        have hsize : (chunk s (s.at n (dataPos (pos / blockSize))) (pos % blockSize)
            (min (blockSize - pos % blockSize) left)).length = min (blockSize - pos % blockSize) left := by
          unfold chunk
          rw [List.length_map, List.length_range]
        rw [List.length_append, hsize]
        refine ⟨by omega, ?_, fun hle hdata => ?_⟩
        · rw [List.range_add, List.map_append, hchunk, List.map_map]
          refine congrArg (_ ++ ·) (heq.trans ?_)
          refine List.map_congr_left fun j _ => ?_
          show content s n (_ + j) = content s n (pos + (_ + j))
          rw [Nat.add_assoc]
        · rw [hall (by omega) hdata]
          omega

/-- What a transfer of `k` bytes to a file leaves. -/
structure Wrote (n pos : Nat) (buf : List Byte) (k : Nat) (s v : Vol) : Prop where
  fair   : Fair v.disk
  mode   : ∀ m, (v.disk.inode m).mode = (s.disk.inode m).mode
  others : ∀ m x, m ≠ n → s.disk.file m = true → x / blockSize < maxBlock → content v.disk m x = content s.disk m x
  data   : ∀ x, x / blockSize < maxBlock → content v.disk n x = overwrite (content s.disk n) pos (buf.take k) x
  size   : ∀ m, v.size m = if m = n ∧ 0 < k then max (s.size n) (pos + k) else s.size m
  bound  : 0 < k → pos + k ≤ maxBlock * blockSize

/-- Nothing is written, whatever zones are added. -/
theorem wrote_zero {s : Vol} {disk : State} (h : Kept s.disk disk) (hn : s.disk.file n = true) (buf : List Byte) :
    Wrote n pos buf 0 s { s with disk := disk } := by
  refine ⟨h.fair, h.mode, fun m x _ hm hx => h.content m x hm hx, fun x hx => ?_, fun m => ?_, fun hlt => ?_⟩
  · rw [List.take_zero, overwrite_nil]
    exact h.content n x hn hx
  · rw [if_neg fun hand => absurd hand.2 (Nat.lt_irrefl 0)]
  · exact absurd hlt (Nat.lt_irrefl 0)

/-- **`file_write`** puts the first bytes of the buffer from the position on. -/
theorem fileWrite_spec : ∀ (rounds : Nat) (s : Vol) (pos : Nat) (buf : List Byte) (v : Vol) (pos' : Nat),
    Fair s.disk → s.disk.file n = true → fileWrite n ok rounds s pos buf = some (v, pos') →
      ∃ k ≤ buf.length, pos' = pos + k ∧ Wrote n pos buf k s v := by
  intro rounds
  induction rounds with
  | zero =>
    intro s pos buf v pos' h hn hw
    cases hw
    exact ⟨0, Nat.zero_le _, rfl, wrote_zero (.refl h) hn buf⟩
  | succ rounds ih =>
    intro s pos buf v pos' h hn hw
    rw [fileWrite] at hw
    by_cases hbuf : buf = []
    · rw [if_pos hbuf] at hw
      cases hw
      exact ⟨0, Nat.zero_le _, rfl, wrote_zero (.refl h) hn buf⟩
    rw [if_neg hbuf] at hw
    cases hmap : bmapIo s.disk n (pos / blockSize) true (ok rounds) with
    | none =>
      rw [hmap] at hw
      cases hw
    | some y =>
      obtain ⟨disk, block⟩ := y
      rw [hmap] at hw
      dsimp only at hw
      obtain ⟨hb, hkept, hat⟩ := bmapIo_spec h hn hmap
      by_cases hzero : block = 0
      · rw [if_pos hzero] at hw
        cases hw
        exact ⟨0, Nat.zero_le _, rfl, wrote_zero hkept hn buf⟩
      rw [if_neg hzero] at hw
      by_cases hfail : ok rounds 2 = false
      · rw [if_pos hfail] at hw
        cases hw
        exact ⟨0, Nat.zero_le _, rfl, wrote_zero hkept hn buf⟩
      rw [if_neg hfail] at hw
      -- a chunk is put, and the loop goes on
      have hlen : 0 < buf.length := List.length_pos_of_ne_nil hbuf
      have hmod : pos % blockSize < blockSize := Nat.mod_lt _ (by decide)
      obtain ⟨c, hc⟩ : ∃ c, c = min (blockSize - pos % blockSize) buf.length := ⟨_, rfl⟩
      rw [← hc] at hw
      have hc0 : 0 < c := by omega
      have htake : (buf.take c).length = c := by
        rw [List.length_take]
        omega
      have hnd : disk.file n = true := (hkept.file n).trans hn
      obtain ⟨hfair, hinode, hothers, hdata⟩ := content_putBytes hkept.fair hnd hb (hat hzero) hzero (buf.take c)
        (by rw [htake]; omega)
      have hmode : ∀ m, ((putBytes disk block (pos % blockSize) (buf.take c)).inode m).mode = (s.disk.inode m).mode := by
        intro m
        rw [hinode]
        exact hkept.mode m
      have hfile : ∀ m, (putBytes disk block (pos % blockSize) (buf.take c)).file m = s.disk.file m := fun m =>
        file_congr (hmode m)
      have hsize : ∀ m, (if pos + c > s.size n then Function.update s.size n (pos + c) else s.size) m =
          if m = n then max (s.size n) (pos + c) else s.size m := by
        intro m
        by_cases hmn : m = n
        · subst hmn
          rw [if_pos rfl]
          split
          · rw [Function.update_self]
            omega
          · omega
        · rw [if_neg hmn]
          split
          · rw [Function.update_of_ne hmn]
          · rfl
      obtain ⟨k, hk, rfl, W⟩ := ih _ _ _ v pos' hfair ((hfile n).trans hn) hw
      rw [List.length_drop] at hk
      have hblock : pos + c ≤ maxBlock * blockSize := by
        unfold blockSize at *
        omega
      refine ⟨c + k, by omega, by omega, W.fair, fun m => (W.mode m).trans (hmode m), fun m x hmn hm hx => ?_,
        fun x hx => ?_, fun m => ?_, ?_⟩
      · have hmd : disk.file m = true := (hkept.file m).trans hm
        rw [W.others m x hmn ((hfile m).trans hm) hx, ← hkept.content m x hm hx]
        exact hothers m x hmn hmd hx
      · rw [W.data x hx, List.take_add, ← overwrite_append, htake]
        refine overwrite_congr _ _ ((hdata x hx).trans ?_)
        exact overwrite_congr _ _ (hkept.content n x hn hx)
      · rw [W.size m]
        dsimp only
        rw [hsize, hsize, if_pos rfl]
        by_cases hmn : m = n
        · subst hmn
          rw [if_pos rfl, if_pos (⟨rfl, by omega⟩ : m = m ∧ 0 < c + k)]
          split <;> omega
        · rw [if_neg (fun hand => hmn hand.1), if_neg hmn, if_neg (fun hand => hmn hand.1)]
      · intro _
        by_cases hk0 : k = 0
        · omega
        · have hbound := W.bound (Nat.pos_of_ne_zero hk0)
          omega

/-- Neither loop panics below the limit. -/
theorem fileRead_total (s : State) (n : Nat) (ok : Nat → Nat → Bool) :
    ∀ rounds pos left : Nat, pos + left ≤ maxBlock * blockSize → ∃ l, fileRead s n ok rounds pos left = some l := by
  intro rounds
  induction rounds with
  | zero => exact fun _ _ _ => ⟨[], rfl⟩
  | succ rounds ih =>
    intro pos left hle
    rw [fileRead]
    by_cases hleft : left = 0
    · rw [if_pos hleft]
      exact ⟨[], rfl⟩
    rw [if_neg hleft]
    have hb : pos / blockSize < maxBlock := by
      unfold blockSize at *
      omega
    obtain ⟨t, nr, hmap⟩ := bmapIo_total s n hb false (ok rounds)
    rw [hmap]
    dsimp only
    split_ifs
    · exact ⟨[], rfl⟩
    · obtain ⟨l, hl⟩ := ih (pos + min (blockSize - pos % blockSize) left) (left - min (blockSize - pos % blockSize) left)
        (by omega)
      rw [hl]
      exact ⟨_, rfl⟩

theorem fileWrite_total (n : Nat) (ok : Nat → Nat → Bool) : ∀ (rounds : Nat) (s : Vol) (pos : Nat) (buf : List Byte),
    pos + buf.length ≤ maxBlock * blockSize → ∃ v pos', fileWrite n ok rounds s pos buf = some (v, pos') := by
  intro rounds
  induction rounds with
  | zero => exact fun s pos _ _ => ⟨s, pos, rfl⟩
  | succ rounds ih =>
    intro s pos buf hle
    rw [fileWrite]
    by_cases hbuf : buf = []
    · rw [if_pos hbuf]
      exact ⟨s, pos, rfl⟩
    rw [if_neg hbuf]
    have hlen : 0 < buf.length := List.length_pos_of_ne_nil hbuf
    have hb : pos / blockSize < maxBlock := by
      unfold blockSize at *
      omega
    obtain ⟨t, block, hmap⟩ := bmapIo_total s.disk n hb true (ok rounds)
    rw [hmap]
    dsimp only
    split_ifs
    · exact ⟨_, _, rfl⟩
    · exact ⟨_, _, rfl⟩
    · refine ih _ _ _ ?_
      rw [List.length_drop]
      omega
    · refine ih _ _ _ ?_
      rw [List.length_drop]
      omega

/-! ## Sparse byte arrays -/

/-- What the calls are about: bytes, sizes, and positions. -/
structure Spec where
  data : Nat → Nat → Byte
  size : Nat → Nat
  filp : Nat → Option File

def Spec.setPos (a : Spec) (fd : Nat) (f : File) (pos : Nat) : Spec :=
  { a with filp := Function.update a.filp fd (some { f with pos := pos }) }

/-- `a'` and `r` are what a read may leave: the `k` bytes that come, all of them
if every block of data can be read. -/
def Spec.Reads (a : Spec) (fd : Nat) (f : File) (count : Nat) (ok : Nat → Nat → Bool) (r : Result) (a' : Spec) : Prop :=
  ∃ k ≤ min count (a.size f.inode - f.pos), ((∀ i, ok i 2 = true) → k = min count (a.size f.inode - f.pos)) ∧
    a' = a.setPos fd f (f.pos + k) ∧
    r = if k = 0 then .value (if min count (a.size f.inode - f.pos) = 0 then 0 else eerror)
      else .bytes ((List.range k).map fun i => a.data f.inode (f.pos + i))

/-- A write of the first `k` bytes. -/
def Spec.Writes (a : Spec) (fd : Nat) (f : File) (buf : List Byte) (r : Result) (a' : Spec) : Prop :=
  let start := if f.append then a.size f.inode else f.pos
  ∃ k ≤ buf.length,
    a'.data = Function.update a.data f.inode (overwrite (a.data f.inode) start (buf.take k)) ∧
    a'.size = Function.update a.size f.inode (if k = 0 then a.size f.inode else max (a.size f.inode) (start + k)) ∧
    a'.filp = (if f.append then a.filp else Function.update a.filp fd (some { f with pos := f.pos + k })) ∧
    r = .value (if buf = [] then 0 else if k = 0 then -1 else k)

/-- A new position, if it is one. -/
def Spec.Seeks (a : Spec) (fd : Nat) (f : File) (pos : Int) (r : Result) (a' : Spec) : Prop :=
  if 0 ≤ pos ∧ pos < 0x80000000 then a' = a.setPos fd f pos.toNat ∧ r = .value pos else a' = a ∧ r = .value einval

/-- **What a call does.** -/
def Spec.Does (a : Spec) : Op → Result → Spec → Prop
  | .read fd count ok, r, a' =>
    match a.filp fd with
    | none => a' = a ∧ r = .value einval
    | some f => if count.toInt < 0 then a' = a ∧ r = .value einval else a.Reads fd f count.toInt.toNat ok r a'
  | .write fd count buf _, r, a' =>
    match a.filp fd with
    | none => a' = a ∧ r = .value einval
    | some f =>
      if count.toInt < 0 then a' = a ∧ r = .value einval
      else a.Writes fd f ((List.range count.toInt.toNat).map buf) r a'
  | .lseek fd offset origin, r, a' =>
    match a.filp fd with
    | none => a' = a ∧ r = .value ebadf
    | some f =>
      match origin with
      | 0 => a.Seeks fd f offset.toInt r a'
      | 1 => a.Seeks fd f (f.pos + offset.toInt) r a'
      | 2 => a.Seeks fd f (a.size f.inode + offset.toInt) r a'
      | _ => a' = a ∧ r = .value einval
  | .truncate n _, r, a' =>
    a' = { a with data := Function.update a.data n fun _ => 0, size := Function.update a.size n 0 } ∧ r = .value 0

/-- The arrays that the volume stands for. -/
def Files.view (s : Files) : Spec :=
  ⟨fun n x => if s.disk.file n = true ∧ x / blockSize < maxBlock then content s.disk n x else 0, s.size, s.filp⟩

/-- What holds between calls. -/
structure Inv (s : Files) : Prop where
  fair   : Fair s.disk
  opened : ∀ fd f, s.filp fd = some f → s.regular f.inode = true ∧ f.pos < 0x80000000
  bound  : ∀ n, s.size n ≤ maxBlock * blockSize
  behind : ∀ n x, s.disk.file n = true → s.size n ≤ x → x / blockSize < maxBlock → content s.disk n x = 0

/-- The calls looked at: a read can read the index blocks, and what is truncated is
a regular file. -/
def Files.Careful (s : Files) : Op → Prop
  | .read _ _ ok => ∀ r, ok r 0 = true ∧ ok r 1 = true
  | .truncate n _ => s.regular n = true
  | _ => True

/-- The blocks that the call is about are below the limit. -/
def Files.Within (s : Files) : Op → Prop
  | .write fd count _ _ => ∀ f, s.filp fd = some f →
      (if f.append then s.size f.inode else f.pos) + count.toInt.toNat ≤ maxBlock * blockSize
  | _ => True

variable {s s' : Files} {op : Op} {r : Result}

theorem regular_file {v : Vol} (h : v.regular n = true) : v.disk.file n = true := by
  unfold State.file
  rw [show ((v.disk.inode n).mode &&& sIfmt == iRegular) = true from h, Bool.true_or]

theorem regular_congr {v w : Vol} (h : (w.disk.inode n).mode = (v.disk.inode n).mode) : w.regular n = v.regular n := by
  unfold Vol.regular
  rw [h]

theorem Inv.setPos (I : Inv s) {fd : Nat} {f : File} (hf : s.filp fd = some f) (pos : Nat) (hpos : pos < 0x80000000) :
    Inv (s.setPos fd f pos) ∧ (s.setPos fd f pos).view = s.view.setPos fd f pos := by
  refine ⟨⟨I.fair, fun fd' f' hf' => ?_, I.bound, I.behind⟩, rfl⟩
  have hf' : Function.update s.filp fd (some { f with pos := pos }) fd' = some f' := hf'
  by_cases hfd : fd' = fd
  · subst hfd
    rw [Function.update_self] at hf'
    cases hf'
    exact ⟨(I.opened fd' f hf).1, hpos⟩
  · rw [Function.update_of_ne hfd] at hf'
    exact I.opened fd' f' hf'

/-- The position that is there already. -/
theorem setPos_self {a : Spec} {fd : Nat} {f : File} (hf : a.filp fd = some f) : a.setPos fd f f.pos = a := by
  unfold Spec.setPos
  rw [show some { f with pos := f.pos } = a.filp fd from hf.symm, Function.update_eq_self]

/-- The count that is left after the comparison with the size, for all 32-bit
counts and positions. -/
theorem count_eq {count pos size : Nat} (hcount : count < 0x80000000) (hpos : pos < 0x80000000)
    (hsize : size < 0x80000000) :
    (if ((count : Int) + pos) % 0x100000000 > size then int32 (size - pos) else count) =
      if pos ≤ size then ((min count (size - pos) : Nat) : Int)
      else if count + pos > size then (size : Int) - pos else count := by
  have hdiff : int32 ((size : Int) - pos) = size - pos := Int.bmod_eq_of_le (by omega) (by omega)
  rw [hdiff]
  split_ifs <;> omega

/-- **`sys_read`**. -/
theorem Inv.read (I : Inv s) {fd : Nat} {f : File} (hf : s.filp fd = some f) (ok : Nat → Nat → Bool) {count : Nat}
    (hcount : count < 0x80000000) :
    (∃ s' r, sysRead s fd count ok = some (s', r)) ∧
      ∀ s' r, (∀ i, ok i 0 = true ∧ ok i 1 = true) → sysRead s fd count ok = some (s', r) →
        Inv s' ∧ s.view.Reads fd f count ok r s'.view := by
  obtain ⟨hregular, hpos⟩ := I.opened fd f hf
  have hfile := regular_file hregular
  have hbound := I.bound f.inode
  have hlimit : maxBlock * blockSize < 0x80000000 := by decide
  have hnone : min count (s.size f.inode - f.pos) = 0 → s.view.Reads fd f count ok (.value 0) s.view := by
    intro hmin
    refine ⟨0, Nat.zero_le _, fun _ => hmin.symm, (setPos_self hf).symm, ?_⟩
    rw [if_pos rfl]
    exact (congrArg Result.value (if_pos hmin)).symm
  have hkind : ¬ s.disk.file f.inode = false := by
    rw [hfile]
    decide
  have hcast := count_eq hcount hpos (Nat.lt_of_le_of_lt hbound hlimit)
  unfold sysRead
  rw [hf]
  dsimp only
  rw [if_neg (by omega : ¬(count : Int) < 0), hcast]
  by_cases hzero : (count : Int) = 0
  · rw [if_pos hzero]
    refine ⟨⟨_, _, rfl⟩, fun s' r _ hstep => ?_⟩
    cases hstep
    exact ⟨I, hnone (by omega)⟩
  rw [if_neg hzero, if_neg hkind]
  by_cases hin : f.pos ≤ s.size f.inode
  · rw [if_pos hin]
    by_cases hmin : min count (s.size f.inode - f.pos) = 0
    · rw [if_pos (by omega)]
      refine ⟨⟨_, _, rfl⟩, fun s' r _ hstep => ?_⟩
      cases hstep
      exact ⟨I, hnone hmin⟩
    rw [if_neg (by omega), Int.toNat_natCast]
    obtain ⟨l, hread⟩ := fileRead_total s.disk f.inode ok (min count (s.size f.inode - f.pos)) f.pos
      (min count (s.size f.inode - f.pos)) (by omega)
    rw [hread]
    cases l with
    | nil =>
      refine ⟨⟨_, _, rfl⟩, fun s' r hok hstep => ?_⟩
      obtain ⟨-, -, hall⟩ := fileRead_spec hok _ _ _ _ hread
      cases hstep
      refine ⟨I, 0, Nat.zero_le _, fun hdata => hall (Nat.le_refl _) hdata, (setPos_self hf).symm, ?_⟩
      rw [if_pos rfl]
      exact (congrArg Result.value (if_neg hmin)).symm
    | cons v l =>
      refine ⟨⟨_, _, rfl⟩, fun s' r hok hstep => ?_⟩
      obtain ⟨hlen, heq, hall⟩ := fileRead_spec hok _ _ _ _ hread
      cases hstep
      obtain ⟨I', hview⟩ := I.setPos hf (f.pos + (v :: l).length) (by omega)
      refine ⟨I', (v :: l).length, hlen, fun hdata => hall (Nat.le_refl _) hdata, hview, ?_⟩
      rw [if_neg (by rw [List.length_cons]; omega)]
      refine congrArg Result.bytes (heq.trans (List.map_congr_left fun j hj => ?_))
      have hj := List.mem_range.mp hj
      refine (if_pos ⟨hfile, ?_⟩).symm
      unfold blockSize at *
      omega
  · rw [if_neg hin, if_pos (by split <;> omega)]
    refine ⟨⟨_, _, rfl⟩, fun s' r _ hstep => ?_⟩
    cases hstep
    exact ⟨I, hnone (by omega)⟩

/-- The volume that `file_write` leaves, and its arrays. -/
theorem Inv.wrote (I : Inv s) {f : File} (hregular : s.regular f.inode = true) {start k : Nat} {buf : List Byte}
    {v : Vol} (hk : k ≤ buf.length) (W : Wrote f.inode start buf k s.toVol v) :
    Inv { s with toVol := v } ∧
      ({ s with toVol := v } : Files).view.data =
        Function.update s.view.data f.inode (overwrite (s.view.data f.inode) start (buf.take k)) ∧
      v.size = Function.update s.size f.inode (if k = 0 then s.size f.inode else max (s.size f.inode) (start + k)) := by
  have hfile := regular_file hregular
  have hvfile : ∀ m, v.disk.file m = s.disk.file m := fun m => file_congr (W.mode m)
  refine ⟨⟨W.fair, fun fd' f' hf' => ?_, fun m => ?_, fun m x hm hle hx => ?_⟩, ?_, ?_⟩
  · obtain ⟨h1, h2⟩ := I.opened fd' f' hf'
    exact ⟨(regular_congr (W.mode _)).trans h1, h2⟩
  · have hbm := I.bound m
    have hbn := I.bound f.inode
    show v.size m ≤ _
    rw [W.size m]
    split_ifs with hand
    · have hbound := W.bound hand.2
      omega
    · exact hbm
  · have hm : s.disk.file m = true := (hvfile m).symm.trans hm
    have hle : v.size m ≤ x := hle
    rw [W.size m] at hle
    by_cases hmn : m = f.inode
    · subst hmn
      show content v.disk f.inode x = 0
      rw [W.data x hx, overwrite, List.length_take, if_neg]
      · refine I.behind _ x hm ?_ hx
        split_ifs at hle <;> omega
      · split_ifs at hle <;> omega
    · rw [if_neg fun hand => hmn hand.1] at hle
      exact (W.others m x hmn hm hx).trans (I.behind m x hm hle hx)
  · funext m x
    show (if v.disk.file m = true ∧ x / blockSize < maxBlock then content v.disk m x else 0) = _
    rw [hvfile m, Function.update_apply]
    by_cases hm : m = f.inode
    · subst hm
      rw [if_pos rfl]
      by_cases hx : x / blockSize < maxBlock
      · rw [if_pos ⟨hfile, hx⟩, W.data x hx]
        exact overwrite_congr _ _ (if_pos ⟨hfile, hx⟩).symm
      · rw [if_neg fun hand => hx hand.2, overwrite, List.length_take, if_neg]
        · exact (if_neg fun hand => hx hand.2).symm
        · rintro ⟨h1, h2⟩
          have hbound := W.bound (by omega)
          unfold blockSize at *
          omega
    · rw [if_neg hm]
      show _ = if s.disk.file m = true ∧ x / blockSize < maxBlock then content s.disk m x else 0
      by_cases hand : s.disk.file m = true ∧ x / blockSize < maxBlock
      · rw [if_pos hand, if_pos hand]
        exact W.others m x hm hand.1 hand.2
      · rw [if_neg hand, if_neg hand]
  · funext m
    rw [W.size m, Function.update_apply]
    by_cases hm : m = f.inode
    · subst hm
      rw [if_pos rfl]
      split_ifs <;> first | rfl | omega
    · rw [if_neg fun hand => hm hand.1, if_neg hm]

/-- **`sys_write`**. -/
theorem Inv.write (I : Inv s) {fd : Nat} {f : File} (hf : s.filp fd = some f) (count : Nat) (src : Nat → Byte)
    (ok : Nat → Nat → Bool) :
    ((if f.append then s.size f.inode else f.pos) + count ≤ maxBlock * blockSize →
        ∃ s' r, sysWrite s fd count src ok = some (s', r)) ∧
      ∀ s' r, sysWrite s fd count src ok = some (s', r) →
        Inv s' ∧ s.view.Writes fd f ((List.range count).map src) r s'.view := by
  obtain ⟨hregular, hpos⟩ := I.opened fd f hf
  have hlimit : maxBlock * blockSize < 0x80000000 := by decide
  have hkind : ¬ s.regular f.inode = false := by
    rw [hregular]
    decide
  unfold sysWrite
  rw [hf]
  dsimp only
  rw [if_neg (by omega : ¬(count : Int) < 0)]
  by_cases hzero : count = 0
  · subst hzero
    rw [if_pos (show ((0 : Nat) : Int) = 0 from rfl)]
    refine ⟨fun _ => ⟨_, _, rfl⟩, fun s' r hstep => ?_⟩
    cases hstep
    have hsame : overwrite (s.view.data f.inode) (if f.append then s.view.size f.inode else f.pos) [] =
        s.view.data f.inode := funext fun x => overwrite_nil _ _ x
    refine ⟨I, 0, Nat.zero_le _, ?_, ?_, ?_, rfl⟩
    · rw [List.take_zero, hsame, Function.update_eq_self]
    · rw [if_pos rfl, Function.update_eq_self]
    · split
      · rfl
      · exact (congrArg Spec.filp (setPos_self (a := s.view) hf)).symm
  rw [if_neg (by omega : ¬(count : Int) = 0), if_neg hkind, Int.toNat_natCast]
  -- `file_write` from the position, or from the end
  obtain ⟨start, hstart⟩ : ∃ start, start = if f.append then s.size f.inode else f.pos := ⟨_, rfl⟩
  obtain ⟨buf, hbuf⟩ : ∃ buf, buf = (List.range count).map src := ⟨_, rfl⟩
  have hlen : buf.length = count := by rw [hbuf, List.length_map, List.length_range]
  rw [← hstart, ← hbuf]
  constructor
  · intro hle
    obtain ⟨v, pos', hwrite⟩ := fileWrite_total f.inode ok count s.toVol start buf (by omega)
    rw [hwrite]
    exact ⟨_, _, rfl⟩
  intro s' r hstep
  cases hwrite : fileWrite f.inode ok count s.toVol start buf with
  | none =>
    rw [hwrite] at hstep
    cases hstep
  | some y =>
    obtain ⟨v, pos'⟩ := y
    rw [hwrite] at hstep
    obtain ⟨k, hk, rfl, W⟩ := fileWrite_spec _ _ _ _ v pos' I.fair (regular_file hregular) hwrite
    obtain ⟨Iv, hdata, hsize⟩ := I.wrote hregular hk W
    have hresult : (if start + k = start then (-1 : Int) else ((start + k : Nat) : Int) - start) =
        if buf = [] then 0 else if k = 0 then -1 else (k : Int) := by
      rw [if_neg (List.ne_nil_of_length_pos (by omega))]
      split_ifs <;> omega
    dsimp only at hstep
    rw [hresult] at hstep
    by_cases happend : f.append = true
    · rw [if_pos happend] at hstep
      cases hstep
      refine ⟨Iv, k, hk, ?_, ?_, ?_, rfl⟩
      · rw [hdata, hstart]
        rfl
      · rw [hstart] at hsize
        exact hsize
      · exact (if_pos happend).symm
    · rw [if_neg happend] at hstep hstart
      cases hstep
      have hnew : start + k < 0x80000000 := by
        by_cases hk0 : k = 0
        · omega
        · have hbound := W.bound (Nat.pos_of_ne_zero hk0)
          omega
      obtain ⟨I', -⟩ := Iv.setPos (f := f) hf (start + k) hnew
      refine ⟨I', k, hk, ?_, ?_, ?_, rfl⟩
      · rw [if_neg happend, ← hstart]
        exact hdata
      · rw [if_neg happend, ← hstart]
        exact hsize
      · rw [if_neg happend, ← hstart]
        rfl

/-- **`sys_lseek`**; a position is a 32-bit number with a sign. -/
theorem Inv.seek (I : Inv s) {fd : Nat} {f : File} (hf : s.filp fd = some f) (offset : BitVec 32) (origin : Nat) :
    Inv (sysLseek s fd offset.toInt origin).1 ∧
      s.view.Does (.lseek fd offset origin) (sysLseek s fd offset.toInt origin).2
        (sysLseek s fd offset.toInt origin).1.view := by
  obtain ⟨-, hpos⟩ := I.opened fd f hf
  have hbound := I.bound f.inode
  have hlimit : maxBlock * blockSize < 0x80000000 := by decide
  have hlow : -0x80000000 ≤ offset.toInt := BitVec.le_toInt offset
  have hhigh : offset.toInt < 0x80000000 := BitVec.toInt_lt
  -- the sum of a position and the offset is cut to 32 bits
  have hwrap : ∀ a : Nat, a < 0x80000000 → (0 ≤ (a : Int) + offset.toInt ∧ (a : Int) + offset.toInt < 0x80000000 →
      int32 (a + offset.toInt) = a + offset.toInt) ∧
      (¬(0 ≤ (a : Int) + offset.toInt ∧ (a : Int) + offset.toInt < 0x80000000) → int32 (a + offset.toInt) < 0) := by
    intro a ha
    unfold int32 Int.bmod
    constructor <;> intro hrange <;> (dsimp only; split_ifs <;> omega)
  have hseek : ∀ pos pos' : Int, (0 ≤ pos ∧ pos < 0x80000000 → pos' = pos) →
      (¬(0 ≤ pos ∧ pos < 0x80000000) → pos' < 0) →
      Inv (if pos' < 0 then (s, Result.value einval) else (s.setPos fd f pos'.toNat, .value pos')).1 ∧
        s.view.Seeks fd f pos (if pos' < 0 then (s, Result.value einval) else (s.setPos fd f pos'.toNat, .value pos')).2
          (if pos' < 0 then (s, Result.value einval) else (s.setPos fd f pos'.toNat, .value pos')).1.view := by
    intro pos pos' hin hout
    unfold Spec.Seeks
    by_cases hrange : 0 ≤ pos ∧ pos < 0x80000000
    · have heq := hin hrange
      subst heq
      rw [if_pos hrange, if_neg (by omega)]
      obtain ⟨I', hview⟩ := I.setPos hf pos'.toNat (by omega)
      exact ⟨I', hview, rfl⟩
    · rw [if_neg hrange, if_pos (hout hrange)]
      exact ⟨I, rfl, rfl⟩
  have hview : s.view.filp fd = some f := hf
  unfold sysLseek Spec.Does
  dsimp only
  rw [hf, hview]
  dsimp only
  match origin with
  | 0 => exact hseek offset.toInt offset.toInt (fun _ => rfl) fun hrange => by omega
  | 1 => exact hseek (f.pos + offset.toInt) (int32 (f.pos + offset.toInt)) (hwrap f.pos hpos).1 (hwrap f.pos hpos).2
  | 2 =>
    have hsize := hwrap (s.size f.inode) (by omega)
    exact hseek (s.size f.inode + offset.toInt) (int32 (s.size f.inode + offset.toInt)) hsize.1 hsize.2
  | _ + 3 => exact ⟨I, rfl, rfl⟩

/-- **`truncate`**, whatever index blocks it cannot read. -/
theorem Inv.truncate (I : Inv s) {n : Nat} (hn : s.regular n = true) (ok : Nat → Bool) :
    ∃ s' r, truncateFile s n ok = some (s', r) ∧ Inv s' ∧ s.view.Does (.truncate n ok) r s'.view := by
  have hfile := regular_file hn
  obtain ⟨t, heq, hfair, hmode, hothers, hempty⟩ := truncate_kept I.fair hfile ok
  have htfile : ∀ m, t.file m = s.disk.file m := fun m => file_congr (hmode m)
  unfold truncateFile
  rw [heq, if_pos hfile]
  refine ⟨_, _, rfl, ⟨hfair, fun fd f hf => ?_, fun m => ?_, fun m x hm hle hx => ?_⟩, ?_, rfl⟩
  · obtain ⟨h1, h2⟩ := I.opened fd f hf
    exact ⟨(regular_congr (v := s.toVol) (hmode _)).trans h1, h2⟩
  · show Function.update s.size n 0 m ≤ _
    rw [Function.update_apply]
    split_ifs
    · exact Nat.zero_le _
    · exact I.bound m
  · show content t m x = 0
    by_cases hmn : m = n
    · subst hmn
      exact hempty x hx
    · have hle : Function.update s.size n 0 m ≤ x := hle
      rw [Function.update_of_ne hmn] at hle
      exact (hothers m x hmn).trans (I.behind m x ((htfile m).symm.trans hm) hle hx)
  · refine congrArg (fun data => (⟨data, Function.update s.size n 0, s.filp⟩ : Spec)) (funext fun m => funext fun x => ?_)
    show (if t.file m = true ∧ x / blockSize < maxBlock then content t m x else 0) = _
    rw [htfile m, Function.update_apply]
    by_cases hmn : m = n
    · subst hmn
      rw [if_pos rfl]
      split_ifs with hand
      · exact hempty x hand.2
      · rfl
    · rw [if_neg hmn]
      show _ = if s.disk.file m = true ∧ x / blockSize < maxBlock then content s.disk m x else 0
      rw [hothers m x hmn]

/-! ## Runs -/

/-- Below the limit there is no panic, and a call that returns does to the arrays
what it is to do. -/
def Files.Refines (s : Files) (op : Op) : Prop :=
  (s.Within op → ∃ s' r, s.step op = some (s', r)) ∧
    ∀ s' r, s.step op = some (s', r) → Inv s' ∧ s.view.Does op r s'.view

theorem refines_refused (I : Inv s) {v : Int} (hstep : s.step op = some (s, .value v))
    (hdoes : s.view.Does op (.value v) s.view) : s.Refines op := by
  refine ⟨fun _ => ⟨s, .value v, hstep⟩, fun s' r heq => ?_⟩
  cases hstep.symm.trans heq
  exact ⟨I, hdoes⟩

theorem read_refines (I : Inv s) {fd : Nat} {count : BitVec 32} (hop : s.Careful (.read fd count ok)) :
    s.Refines (.read fd count ok) := by
  have hhigh : count.toInt < 0x80000000 := BitVec.toInt_lt
  cases hf : s.filp fd with
  | none =>
    have hview : s.view.filp fd = none := hf
    refine refines_refused I (v := einval) ?_ ?_
    · show sysRead s fd count.toInt ok = _
      unfold sysRead
      rw [hf]
    · unfold Spec.Does
      dsimp only
      rw [hview]
      exact ⟨rfl, rfl⟩
  | some f =>
    have hview : s.view.filp fd = some f := hf
    by_cases hneg : count.toInt < 0
    · refine refines_refused I (v := einval) ?_ ?_
      · show sysRead s fd count.toInt ok = _
        unfold sysRead
        rw [hf]
        exact if_pos hneg
      · unfold Spec.Does
        dsimp only
        rw [hview]
        exact (if_pos hneg).mpr ⟨rfl, rfl⟩
    · obtain ⟨c, hc⟩ := Int.eq_ofNat_of_zero_le (Int.not_lt.mp hneg)
      have hstep : s.step (.read fd count ok) = sysRead s fd c ok := congrArg (sysRead s fd · ok) hc
      obtain ⟨htotal, hspec⟩ := I.read hf ok (show c < 0x80000000 by omega)
      unfold Files.Refines
      rw [hstep]
      refine ⟨fun _ => htotal, fun s' r heq => ?_⟩
      obtain ⟨I', hreads⟩ := hspec s' r hop heq
      unfold Spec.Does
      dsimp only
      rw [hview]
      dsimp only
      rw [if_neg hneg, hc, Int.toNat_natCast]
      exact ⟨I', hreads⟩

theorem write_refines (I : Inv s) (fd : Nat) (count : BitVec 32) (src : Nat → Byte) (ok : Nat → Nat → Bool) :
    s.Refines (.write fd count src ok) := by
  cases hf : s.filp fd with
  | none =>
    have hview : s.view.filp fd = none := hf
    refine refines_refused I (v := einval) ?_ ?_
    · show sysWrite s fd count.toInt src ok = _
      unfold sysWrite
      rw [hf]
    · unfold Spec.Does
      dsimp only
      rw [hview]
      exact ⟨rfl, rfl⟩
  | some f =>
    have hview : s.view.filp fd = some f := hf
    by_cases hneg : count.toInt < 0
    · refine refines_refused I (v := einval) ?_ ?_
      · show sysWrite s fd count.toInt src ok = _
        unfold sysWrite
        rw [hf]
        exact if_pos hneg
      · unfold Spec.Does
        dsimp only
        rw [hview]
        exact (if_pos hneg).mpr ⟨rfl, rfl⟩
    · obtain ⟨c, hc⟩ := Int.eq_ofNat_of_zero_le (Int.not_lt.mp hneg)
      have hstep : s.step (.write fd count src ok) = sysWrite s fd c src ok := congrArg (sysWrite s fd · src ok) hc
      obtain ⟨htotal, hspec⟩ := I.write hf c src ok
      unfold Files.Refines
      rw [hstep]
      refine ⟨fun hwithin => htotal ?_, fun s' r heq => ?_⟩
      · have hle := hwithin f hf
        rw [hc, Int.toNat_natCast] at hle
        exact hle
      obtain ⟨I', hwrites⟩ := hspec s' r heq
      unfold Spec.Does
      dsimp only
      rw [hview]
      dsimp only
      rw [if_neg hneg, hc, Int.toNat_natCast]
      exact ⟨I', hwrites⟩

theorem lseek_refines (I : Inv s) (fd : Nat) (offset : BitVec 32) (origin : Nat) :
    s.Refines (.lseek fd offset origin) := by
  cases hf : s.filp fd with
  | none =>
    have hview : s.view.filp fd = none := hf
    refine refines_refused I (v := ebadf) ?_ ?_
    · show some (sysLseek s fd offset.toInt origin) = _
      unfold sysLseek
      rw [hf]
    · unfold Spec.Does
      dsimp only
      rw [hview]
      exact ⟨rfl, rfl⟩
  | some f =>
    refine ⟨fun _ => ⟨_, _, rfl⟩, fun s' r heq => ?_⟩
    have heq : sysLseek s fd offset.toInt origin = (s', r) := Option.some.inj heq
    have hseek := I.seek hf offset origin
    rw [heq] at hseek
    exact hseek

/-- **One call.** -/
theorem call_refines (I : Inv s) (hop : s.Careful op) : s.Refines op := by
  cases op with
  | read fd count ok => exact read_refines I hop
  | write fd count src ok => exact write_refines I fd count src ok
  | lseek fd offset origin => exact lseek_refines I fd offset origin
  | truncate n ok =>
    obtain ⟨t, v, heq, I', hdoes⟩ := I.truncate hop ok
    refine ⟨fun _ => ⟨t, v, heq⟩, fun s' r heq' => ?_⟩
    cases heq.symm.trans heq'
    exact ⟨I', hdoes⟩

/-- A run, with the calls and what they return. -/
inductive Trace {σ : Type} (does : σ → Op → Result → σ → Prop) : σ → List (Op × Result) → σ → Prop
  | nil (a : σ) : Trace does a [] a
  | snoc {a b c : σ} {l : List (Op × Result)} {op : Op} {r : Result} :
      Trace does a l b → does b op r c → Trace does a (l ++ [(op, r)]) c

/-- A call that returns. -/
def Files.Calls (s : Files) (op : Op) (r : Result) (s' : Files) : Prop := s.Careful op ∧ s.step op = some (s', r)

theorem trace_refine {s₀ : Files} {l : List (Op × Result)} (I₀ : Inv s₀) (h : Trace Files.Calls s₀ l s) :
    Inv s ∧ Trace Spec.Does s₀.view l s.view := by
  induction h with
  | nil => exact ⟨I₀, .nil _⟩
  | snoc _ hcall ih =>
    obtain ⟨I, htrace⟩ := ih
    obtain ⟨I', hdoes⟩ := (call_refines I hcall.1).2 _ _ hcall.2
    exact ⟨I', htrace.snoc hdoes⟩

/-- **Regular files are sparse byte arrays**: every run is one of the arrays, with
the same results, and no call that stays below the limit panics. What a program
reads is what was written last, or zeros. -/
theorem files_refine {s₀ : Files} {l : List (Op × Result)} (I : Inv s₀) (h : Trace Files.Calls s₀ l s) :
    Trace Spec.Does s₀.view l s.view ∧
      ∀ op, s.Careful op → s.Within op → ∃ s' r, s.step op = some (s', r) ∧ s.view.Does op r s'.view := by
  obtain ⟨I', htrace⟩ := trace_refine I h
  refine ⟨htrace, fun op hop hwithin => ?_⟩
  obtain ⟨htotal, hspec⟩ := call_refines I' hop
  obtain ⟨s', r, heq⟩ := htotal hwithin
  exact ⟨s', r, heq, (hspec s' r heq).2⟩

/-- A file of one block that is full. -/
def fullBlock : Files where
  disk :=
    { firstdatazone := 5
      nzones := 13
      bits := 8192
      zmap := {0, 1}
      inode := fun n => ⟨if n = 2 then 0o100644 else 0, fun k => if n = 2 ∧ k = 0 then 5 else 0⟩
      block := fun z _ => if z = 5 then 257 else 0 }
  size n := if n = 2 then 1024 else 0
  filp fd := if fd = 0 then some ⟨2, 0, false⟩ else none

theorem inv_fullBlock : Inv fullBlock := by
  refine ⟨fair_one (fun _ _ => rfl) (by decide) (by decide) (by decide) (by decide),
    fun fd f hf => ?_, fun n => ?_, fun n x _ hle hx => ?_⟩
  · have hf : (if fd = 0 then some (⟨2, 0, false⟩ : File) else none) = some f := hf
    split_ifs at hf
    cases hf
    decide
  · show (if n = 2 then 1024 else 0) ≤ maxBlock * blockSize
    unfold maxBlock blockSize
    split_ifs <;> omega
  · refine if_pos (by_contra fun hne => ?_)
    obtain ⟨rfl, hpos, -⟩ := at_one (s := fullBlock.disk) (fun _ _ => rfl) hne
    have hblock : x / blockSize = 0 := dataPos_inj (c := 0) hpos
    have hle : 1024 ≤ x := hle
    unfold blockSize at hblock
    omega

/-- A position far behind the end, and three bytes there. -/
theorem files_refine_fullBlock :
    Trace Spec.Does fullBlock.view [(.lseek 0 600000 0, .value 600000)] (fullBlock.setPos 0 ⟨2, 0, false⟩ 600000).view ∧
      ∃ s' r, (fullBlock.setPos 0 ⟨2, 0, false⟩ 600000).step (.write 0 3 (fun _ => 7) fun _ _ => true) = some (s', r) ∧
        (fullBlock.setPos 0 ⟨2, 0, false⟩ 600000).view.Does (.write 0 3 (fun _ => 7) fun _ _ => true) r s'.view := by
  have htrace : Trace Files.Calls fullBlock [(.lseek 0 600000 0, .value 600000)]
      (fullBlock.setPos 0 ⟨2, 0, false⟩ 600000) := (Trace.nil fullBlock).snoc ⟨trivial, rfl⟩
  obtain ⟨hdoes, hnext⟩ := files_refine inv_fullBlock htrace
  refine ⟨hdoes, hnext _ trivial fun f hf => ?_⟩
  cases hf
  decide

/-- The block with the data cannot be read, and there are no bytes. -/
theorem read_unreadable : Inv fullBlock ∧ min 4 (fullBlock.view.size 2 - 0) = 4 ∧
    ∃ s' r, fullBlock.step (.read 0 4 fun _ k => k != 2) = some (s', r) ∧
      r ≠ .bytes ((List.range 4).map fun i => fullBlock.view.data 2 (0 + i)) :=
  ⟨inv_fullBlock, rfl, fullBlock, .value eerror, rfl, nofun⟩

end Linux011.Fs.FileData
