import Linux011.Fs.Directory
import Linux011.Fs.FileRuns
import Linux011.Fs.Room
import Mathlib.Data.List.GetD

/-!
# Directories — what is added is found

`add_entry` and `find_entry` on a directory whose blocks are there and can be
read, down to the bytes of the names: whether a program finds the file it has made.

* `Dirs.found` — what `find_entry` returns, and `found_eq`: the first entry that
  `match` takes;
* `hit_iff`, `hit_same` — `match` on the bytes of an entry;
* `View`, `view_put` — a directory with other bytes in it;
* `addLoop_spec` — the loop of `add_entry`;
* `entry_added` — both together.
-/

namespace Linux011.Fs.Directory

open Linux011.Lib ZoneMap FileData

/-- Every read succeeds. -/
def allRead : Nat → Nat → Bool := fun _ _ => true

/-- What `find_entry` returns. -/
def Dirs.found (m : Dirs) (dir : Ino) (name : List Byte) : Option (Ino × Option (Buf × Nat)) :=
  match findEntry dir name allRead m with
  | .ok r _ => some r
  | .error _ _ => none

variable {m m' : Dirs} {dir : Ino} {name nm : List Byte} {b i j n : Nat}

/-! ## _bmap on the volumes -/

/-- Only the device is changed, to `disk`. -/
structure OnDisk (m : Dirs) (dev : Nat) (disk : State) (m' : Dirs) : Prop where
  vol    : m'.vol = Function.update m.vol dev { m.vol dev with disk := disk }
  root   : m'.root = m.root
  imount : m'.imount = m.imount
  count  : m'.count = m.count
  held   : m'.held = m.held

theorem onDisk_refl (m : Dirs) (dev : Nat) : OnDisk m dev (m.vol dev).disk m :=
  ⟨by simp, rfl, rfl, rfl, rfl⟩

theorem OnDisk.disk {dev : Nat} {disk : State} (h : OnDisk m dev disk m') :
    (m'.vol dev).disk = disk := by
  simp [h.vol]

theorem OnDisk.trans {m₁ : Dirs} {dev : Nat} {disk disk' : State} (h : OnDisk m dev disk m₁)
    (h' : OnDisk m₁ dev disk' m') : OnDisk m dev disk' m' :=
  ⟨by rw [h'.vol, h.vol]; simp, h'.root.trans h.root, h'.imount.trans h.imount,
    h'.count.trans h.count, h'.held.trans h.held⟩

theorem newBlock_onDisk (m : Dirs) (dev : Nat) :
    wp (newBlock dev) (fun z m' => z = (m.vol dev).disk.newBlock.2 ∧
      OnDisk m dev (m.vol dev).disk.newBlock.1 m') (fun e _ => e = .panic) m := by
  unfold newBlock
  rw [wp_bind, wp_get]
  generalize (m.vol dev).disk.newBlock = r
  obtain ⟨disk, z⟩ := r
  by_cases hz : z = 0
  · simpa [hz] using ⟨rfl, rfl, rfl, rfl, rfl⟩
  · by_cases hcount : m.count (dev, z) = 0
    · have hone : ((m.setDisk dev disk).hold (dev, z)).count (dev, z) = 1 := by
        simp [Dirs.setDisk, Dirs.hold, hcount]
      simp [hz, hone]
      rw [wp_brelse (by simp [Dirs.hold]) (by simp [Dirs.hold])]
      exact ⟨by simp [Dirs.drop, Dirs.hold, Dirs.setDisk], rfl, rfl,
        by simp [Dirs.drop, Dirs.hold, Dirs.setDisk], by simp [Dirs.drop, Dirs.hold, Dirs.setDisk]⟩
    · simp [hz, Dirs.hold, Dirs.setDisk, hcount]

theorem fillZone_onDisk (m : Dirs) (dir : Ino) (k : Nat) (create : Bool) :
    wp (fillZone dir k create) (fun z m' => z = ((m.vol dir.1).disk.fillZone dir.2 k create).2 ∧
      OnDisk m dir.1 ((m.vol dir.1).disk.fillZone dir.2 k create).1 m') (fun e _ => e = .panic) m := by
  unfold fillZone State.fillZone
  rw [wp_bind, wp_get]
  split_ifs with hfill
  · rw [wp_bind]
    refine wp_mono (newBlock_onDisk m dir.1) ?_ fun _ _ he => he
    intro z m₁ ⟨hz, hdisk⟩
    simp only [wp_bind, wp_modify, wp_pure]
    refine ⟨hz, hdisk.trans ⟨?_, rfl, rfl, rfl, rfl⟩⟩
    rw [hz, hdisk.disk]
    rfl
  · exact ⟨rfl, onDisk_refl m dir.1⟩

theorem fillEntry_onDisk (m : Dirs) (dev w b : Nat) (create : Bool) :
    wp (fillEntry dev w b create) (fun z m' => z = ((m.vol dev).disk.fillEntry w b create).2 ∧
      OnDisk m dev ((m.vol dev).disk.fillEntry w b create).1 m') (fun e _ => e = .panic) m := by
  unfold fillEntry State.fillEntry
  rw [wp_bind, wp_get]
  split_ifs with hfill
  · rw [wp_bind]
    refine wp_mono (newBlock_onDisk m dev) ?_ fun _ _ he => he
    intro z m₁ ⟨hz, hdisk⟩
    subst hz
    dsimp only
    split_ifs with hzero
    · exact ⟨rfl, hdisk⟩
    · simp only [wp_bind, wp_modify, wp_pure, true_and]
      refine hdisk.trans ⟨?_, rfl, rfl, rfl, rfl⟩
      rw [hdisk.disk]
      rfl
  · exact ⟨rfl, onDisk_refl m dev⟩

theorem indexEntry_onDisk (m : Dirs) (dev w b : Nat) (create : Bool) :
    wp (indexEntry dev w b create true) (fun z m' => z = ((m.vol dev).disk.fillEntry w b create).2 ∧
      OnDisk m dev ((m.vol dev).disk.fillEntry w b create).1 m') (fun e _ => e = .panic) m := by
  unfold indexEntry
  rw [wp_bind, wp_bread, if_pos (by simp [Dirs.readable]), wp_bind]
  refine wp_mono (fillEntry_onDisk (m.hold (dev, w)) dev w b create) ?_ fun _ _ he => he
  intro z m₁ ⟨hz, hdisk⟩
  rw [wp_bind, wp_brelse (by simp [hdisk.held, Dirs.hold]) (by simp [hdisk.count, Dirs.hold])]
  exact ⟨hz, hdisk.vol, hdisk.root, hdisk.imount, by simp [Dirs.drop, hdisk.count, Dirs.hold],
    by simp [Dirs.drop, hdisk.held, Dirs.hold]⟩

/-- **`_bmap`** is that of the zone accounts, but for the panic of `new_block`
when somebody has the buffer of the zone. -/
theorem bmap_onDisk (m : Dirs) (dir : Ino) (b : Nat) (create : Bool) :
    wp (bmap dir b create fun _ => true) (fun z m' =>
      ∃ disk, (m.vol dir.1).disk.bmap dir.2 b create = some (disk, z) ∧ OnDisk m dir.1 disk m')
      (fun e _ => e = .panic) m := by
  unfold bmap State.bmap maxBlock
  by_cases hmax : 7 + 512 + 512 * 512 ≤ b
  · rw [if_pos hmax]
    rfl
  rw [if_neg hmax, if_neg hmax]
  by_cases h7 : b < 7
  · rw [if_pos h7, if_pos h7]
    refine wp_mono (fillZone_onDisk m dir b create) ?_ fun _ _ he => he
    intro z m₁ ⟨hz, hdisk⟩
    exact ⟨_, by rw [hz], hdisk⟩
  rw [if_neg h7, if_neg h7]
  by_cases h512 : b - 7 < 512
  · rw [if_pos h512, if_pos h512, wp_bind]
    refine wp_mono (fillZone_onDisk m dir 7 create) ?_ fun _ _ he => he
    intro z m₁ ⟨hz, hdisk⟩
    subst hz
    dsimp only
    split_ifs with hzero
    · exact ⟨_, rfl, hdisk⟩
    · refine wp_mono (indexEntry_onDisk m₁ dir.1 _ _ create) ?_ fun _ _ he => he
      intro i m₂ ⟨hi, hdisk₂⟩
      rw [hdisk.disk] at hi hdisk₂
      exact ⟨_, by rw [hi], hdisk.trans hdisk₂⟩
  · rw [if_neg h512, if_neg h512, wp_bind]
    refine wp_mono (fillZone_onDisk m dir 8 create) ?_ fun _ _ he => he
    intro z m₁ ⟨hz, hdisk⟩
    subst hz
    dsimp only
    by_cases hzero : ((m.vol dir.1).disk.fillZone dir.2 8 create).2 = 0
    · rw [if_pos hzero, if_pos hzero]
      exact ⟨_, rfl, hdisk⟩
    rw [if_neg hzero, if_neg hzero, wp_bind]
    refine wp_mono (indexEntry_onDisk m₁ dir.1 _ _ create) ?_ fun _ _ he => he
    intro i m₂ ⟨hi, hdisk₂⟩
    rw [hdisk.disk] at hi hdisk₂
    subst hi
    split_ifs with hi₀
    · exact ⟨_, rfl, hdisk.trans hdisk₂⟩
    · refine wp_mono (indexEntry_onDisk m₂ dir.1 _ _ create) ?_ fun _ _ he => he
      intro x m₃ ⟨hx, hdisk₃⟩
      rw [hdisk₂.disk] at hx hdisk₃
      exact ⟨_, by rw [hx], (hdisk.trans hdisk₂).trans hdisk₃⟩

/-! ## Entries -/

/-- Entry `j` of a directory: its buffer, and its number there. -/
def Dirs.slot (m : Dirs) (dir : Ino) (j : Nat) : Buf × Nat :=
  ((dir.1, (m.vol dir.1).disk.at dir.2 (dataPos (j / dirEntriesPerBlock))), j % dirEntriesPerBlock)

/-- The block of entry `j` is there. -/
def Dirs.There (m : Dirs) (dir : Ino) (j : Nat) : Prop :=
  j / dirEntriesPerBlock < maxBlock ∧
    (m.vol dir.1).disk.at dir.2 (dataPos (j / dirEntriesPerBlock)) ≠ 0

/-- A byte of a directory. -/
def Dirs.get (m : Dirs) (dir : Ino) (x : Nat) : Byte := content (m.vol dir.1).disk dir.2 x

def Dirs.inodeAt (m : Dirs) (dir : Ino) (j : Nat) : Nat :=
  (m.get dir (entrySize * j)).val + 256 * (m.get dir (entrySize * j + 1)).val

/-- `match` takes entry `j`. -/
def Dirs.hit (m : Dirs) (dir : Ino) (name : List Byte) (j : Nat) : Bool :=
  m.match name (m.slot dir j).1 (m.slot dir j).2

/-- Where entry `j` is. -/
theorem entry_place {e : Nat} (he : e < entrySize) :
    (entrySize * j + e) / FileData.blockSize = j / dirEntriesPerBlock ∧
      (entrySize * j + e) % FileData.blockSize = entrySize * (j % dirEntriesPerBlock) + e := by
  simp only [entrySize, dirEntriesPerBlock, FileData.blockSize] at *
  omega

theorem slot_byte (h : m.There dir j) {e : Nat} (he : e < entrySize) :
    byte (m.vol dir.1).disk (m.slot dir j).1.2 (entrySize * (m.slot dir j).2 + e) =
      m.get dir (entrySize * j + e) := by
  obtain ⟨hblock, hoff⟩ := entry_place (j := j) he
  unfold Dirs.get content Dirs.slot
  rw [hblock, hoff, if_neg h.2]

theorem slot_inode (h : m.There dir j) :
    m.deInode (m.slot dir j).1 (m.slot dir j).2 = m.inodeAt dir j := by
  have hlow := slot_byte h (e := 0) (by decide)
  have hhigh := slot_byte h (e := 1) (by decide)
  unfold Dirs.deInode Dirs.inodeAt
  rw [← hhigh, ← Nat.add_zero (entrySize * j), ← hlow]
  rfl

theorem slot_name (h : m.There dir j) {t : Nat} (ht : t < nameLen) :
    m.deName (m.slot dir j).1 (m.slot dir j).2 t = m.get dir (entrySize * j + 2 + t) := by
  rw [Nat.add_assoc, ← slot_byte h (e := 2 + t) (by simp only [nameLen, entrySize] at *; omega),
    ← Nat.add_assoc]
  rfl

/-- `match` on the bytes of an entry. -/
theorem hit_iff (h : m.There dir j) : m.hit dir nm j = true ↔
    m.inodeAt dir j ≠ 0 ∧ nm.length ≤ nameLen ∧
      (nm.length < nameLen → m.get dir (entrySize * j + 2 + nm.length) = 0) ∧
      ∀ t, t < nm.length → m.get dir (entrySize * j + 2 + t) = nm.getD t 0 := by
  unfold Dirs.hit Dirs.match
  rw [slot_inode h]
  by_cases hout : m.inodeAt dir j = 0 ∨ nameLen < nm.length
  · rw [if_pos hout]
    refine iff_of_false (by simp) fun hall => ?_
    exact hout.elim hall.1 (Nat.not_lt_of_le hall.2.1)
  rw [if_neg hout]
  rw [not_or, Nat.not_lt] at hout
  have hbytes : ((List.range nm.length).map (m.deName (m.slot dir j).1 (m.slot dir j).2) == nm) = true ↔
      ∀ t, t < nm.length → m.get dir (entrySize * j + 2 + t) = nm.getD t 0 := by
    rw [beq_iff_eq, List.ext_getElem_iff]
    simp only [List.length_map, List.length_range, true_and]
    constructor
    · intro hall t ht
      have hbyte := hall t ht ht
      rw [List.getElem_map, List.getElem_range, slot_name h (by omega)] at hbyte
      rw [hbyte, List.getD_eq_getElem _ _ ht]
    · intro hall t ht _
      rw [List.getElem_map, List.getElem_range, slot_name h (by omega), hall t ht,
        List.getD_eq_getElem _ _ ht]
  by_cases hend : nm.length < nameLen ∧ m.deName (m.slot dir j).1 (m.slot dir j).2 nm.length ≠ 0
  · rw [if_pos hend]
    refine iff_of_false (by simp) fun hall => hend.2 ?_
    rw [slot_name h hend.1]
    exact hall.2.2.1 hend.1
  · rw [if_neg hend, hbytes, and_iff_right hout.1, and_iff_right hout.2, and_iff_right]
    intro hlt
    rw [not_and, not_not] at hend
    rw [← slot_name h hlt]
    exact hend hlt

/-- The same bytes are taken for the same names. -/
theorem hit_same (h : m.There dir j) (h' : m'.There dir j)
    (hbytes : ∀ e, e < entrySize → m'.get dir (entrySize * j + e) = m.get dir (entrySize * j + e)) :
    m'.hit dir nm j = m.hit dir nm j := by
  have hino : m'.inodeAt dir j = m.inodeAt dir j := by
    unfold Dirs.inodeAt
    rw [hbytes 1 (by decide), ← Nat.add_zero (entrySize * j), hbytes 0 (by decide)]
  have hname : ∀ t, t < nameLen →
      m'.get dir (entrySize * j + 2 + t) = m.get dir (entrySize * j + 2 + t) := by
    intro t ht
    rw [Nat.add_assoc]
    exact hbytes (2 + t) (by simp only [nameLen, entrySize] at *; omega)
  rw [Bool.eq_iff_iff, hit_iff h, hit_iff h', hino]
  refine and_congr_right fun _ => and_congr_right fun hlen => and_congr ?_ ?_
  · exact forall_congr' fun hlt => by rw [hname _ hlt]
  · exact forall_congr' fun t => forall_congr' fun ht => by rw [hname t (Nat.lt_of_lt_of_le ht hlen)]

/-- An entry with the name `name`, with zeros behind it, is taken for no other
name. -/
theorem hit_named (h : m.There dir j) (hused : m.inodeAt dir j ≠ 0)
    (hbytes : ∀ t, t < nameLen → m.get dir (entrySize * j + 2 + t) = name.getD t 0)
    (hlen : name.length ≤ nameLen) (hnul : 0 ∉ name) (hlen' : nm.length ≤ nameLen) (hnul' : 0 ∉ nm) :
    m.hit dir nm j = true ↔ nm = name := by
  have hne : ∀ {l : List Byte} {t : Nat}, 0 ∉ l → t < l.length → l.getD t 0 ≠ 0 := by
    intro l t hl ht heq
    rw [List.getD_eq_getElem _ _ ht] at heq
    exact hl (heq ▸ List.getElem_mem ht)
  rw [hit_iff h, and_iff_right hused, and_iff_right hlen']
  constructor
  · intro ⟨hend, hall⟩
    have hle : nm.length ≤ name.length := by
      by_contra hlt
      have hshort : name.length < nm.length := Nat.lt_of_not_le hlt
      have hbyte := hall _ hshort
      rw [hbytes _ (by omega), List.getD_eq_default _ _ (Nat.le_refl _)] at hbyte
      exact hne hnul' hshort hbyte.symm
    have hge : name.length ≤ nm.length := by
      by_contra hlt
      have hshort : nm.length < name.length := Nat.lt_of_not_le hlt
      have hbyte := hend (by omega)
      rw [hbytes _ (by omega)] at hbyte
      exact hne hnul hshort hbyte
    refine List.ext_getElem (by omega) fun t ht ht' => ?_
    have hbyte := hall t ht
    rw [hbytes t (by omega), List.getD_eq_getElem _ _ ht, List.getD_eq_getElem _ _ ht'] at hbyte
    exact hbyte.symm
  · intro heq
    subst heq
    refine ⟨fun hlt => ?_, fun t ht => hbytes t (by omega)⟩
    rw [hbytes _ hlt, List.getD_eq_default _ _ (Nat.le_refl _)]

/-! ## find_entry -/

theorem zoneOf_at (m : Dirs) (dir : Ino) (b : Nat) :
    m.zoneOf dir b (fun _ => true) = (m.vol dir.1).disk.at dir.2 (dataPos b) := by
  have hindexed : ∀ w c, m.indexed dir.1 w c true = (m.vol dir.1).disk.below w c := by
    intro w c
    simp [Dirs.indexed, Dirs.readable, State.below]
  unfold Dirs.zoneOf dataPos
  simp only [hindexed]
  split_ifs <;> rfl

theorem load_at (h : (m.vol dir.1).disk.at dir.2 (dataPos b) ≠ 0) :
    m.load dir b (allRead b) = some (dir.1, (m.vol dir.1).disk.at dir.2 (dataPos b)) := by
  show m.load dir b (fun _ => true) = _
  unfold Dirs.load
  rw [zoneOf_at, if_neg h]
  simp [Dirs.readable]

/-- Entry `k` of block `c`. -/
theorem slot_eq {k c : Nat} (hk : k < dirEntriesPerBlock) (hi : i = dirEntriesPerBlock * c + k) :
    m.slot dir i = ((dir.1, (m.vol dir.1).disk.at dir.2 (dataPos c)), k) := by
  obtain ⟨hdiv, hmod⟩ := entry_div hk hi
  unfold Dirs.slot
  rw [hdiv, hmod]

/-- One entry. -/
theorem findHere_spec {entries rounds k c : Nat} {cur : Buf} (hk : k < dirEntriesPerBlock)
    (hi : i = dirEntriesPerBlock * c + k) (hlt : i < entries)
    (hcur : cur = (dir.1, (m.vol dir.1).disk.at dir.2 (dataPos c)))
    (hnone : ∀ j, j < i → m.hit dir nm j = false)
    (ih : m.hit dir nm i = false →
      wp (findLoop dir nm entries allRead rounds (i + 1) (some cur) (k + 1))
        (fun r _ => r = ((List.range entries).find? (m.hit dir nm)).map (m.slot dir))
        (fun _ _ => False) (m.hold cur)) :
    wp (do
        let m ← get
        if m.match nm cur k then return some (cur, k)
        else findLoop dir nm entries allRead rounds (i + 1) (some cur) (k + 1))
      (fun r _ => r = ((List.range entries).find? (m.hit dir nm)).map (m.slot dir))
      (fun _ _ => False) (m.hold cur) := by
  have hslot : m.slot dir i = (cur, k) := by rw [hcur, slot_eq hk hi]
  have hmatch : (m.hold cur).match nm cur k = m.hit dir nm i := by
    unfold Dirs.hit
    rw [hslot]
    rfl
  simp only [wp_bind, wp_get, hmatch]
  cases hhit : m.hit dir nm i with
  | true =>
    have hfirst : (List.range entries).find? (m.hit dir nm) = some i := by
      rw [List.find?_range_eq_some]
      exact ⟨hhit, List.mem_range.mpr hlt, fun j hj => by simp [hnone j hj]⟩
    rw [hfirst, Option.map_some, hslot]
    rfl
  | false => exact ih hhit

variable (nm) in
/-- The loop of `find_entry`: the first entry that `match` takes. -/
theorem findLoop_spec {entries rounds k c : Nat} {cur : Buf} (hk : k ≤ dirEntriesPerBlock)
    (hi : i = dirEntriesPerBlock * c + k) (hle : i ≤ entries) (hrounds : entries < i + rounds)
    (hthere : ∀ j, j < entries → m.There dir j)
    (hcur : cur = (dir.1, (m.vol dir.1).disk.at dir.2 (dataPos c)))
    (hnone : ∀ j, j < i → m.hit dir nm j = false) :
    wp (findLoop dir nm entries allRead rounds i (some cur) k)
      (fun r _ => r = ((List.range entries).find? (m.hit dir nm)).map (m.slot dir))
      (fun _ _ => False) (m.hold cur) := by
  induction rounds generalizing i k c cur with
  | zero => omega
  | succ rounds ih =>
    unfold findLoop
    by_cases hend : entries ≤ i
    · have hnothing : (List.range entries).find? (m.hit dir nm) = none := by
        rw [List.find?_range_eq_none]
        intro j hj
        simp [hnone j (by omega)]
      rw [if_pos hend, hnothing]
      simp
    rw [if_neg hend]
    have hnone' : m.hit dir nm i = false → ∀ j, j < i + 1 → m.hit dir nm j = false := by
      intro hhit j hj
      by_cases heq : j = i
      · rw [heq, hhit]
      · exact hnone j (by omega)
    by_cases hblock : k < dirEntriesPerBlock
    · simp only [wp_bind, wp_touch_hold, if_pos hblock]
      have hhere := findHere_spec hblock hi (by omega) hcur hnone fun hhit =>
        ih (by omega) (by omega : i + 1 = dirEntriesPerBlock * c + (k + 1)) (by omega) (by omega)
          hcur (hnone' hhit)
      simpa only [wp_bind] using hhere
    · obtain ⟨hnext, hdiv⟩ := entry_next hk hblock hi
      obtain ⟨hmax, hzone⟩ := hthere i (by omega)
      rw [hdiv] at hmax hzone
      simp only [wp_bind, wp_touch_hold, if_neg hblock, wp_brelse_hold, hdiv]
      rw [wp_bmap_lookup (by simp), if_neg (by omega), wp_fetch, load_at hzone]
      have hhere := findHere_spec (by decide : 0 < dirEntriesPerBlock)
        (by omega : i = dirEntriesPerBlock * (c + 1) + 0) (by omega) rfl hnone fun hhit =>
          ih (by decide) (by omega : i + 1 = dirEntriesPerBlock * (c + 1) + (0 + 1)) (by omega)
            (by omega) rfl (hnone' hhit)
      simpa only [wp_bind] using hhere

theorem found_nil (m : Dirs) (dir : Ino) : m.found dir [] = some (dir, none) := rfl

/-- **`find_entry`** finds the first entry that `match` takes. -/
theorem found_eq (hname : name ≠ []) (hup : m.goUp dir (name.take nameLen) = (dir, nm))
    (hfirst : m.There dir 0) (hthere : ∀ j, j < m.size dir / entrySize → m.There dir j) :
    m.found dir name =
      some (dir, ((List.range (m.size dir / entrySize)).find? (m.hit dir nm)).map (m.slot dir)) := by
  have hsame : m.exchange dir dir = m := if_pos rfl
  have hrun : wp (findEntry dir name allRead) (fun r _ => r = (dir,
      ((List.range (m.size dir / entrySize)).find? (m.hit dir nm)).map (m.slot dir)))
      (fun _ _ => False) m := by
    unfold findEntry
    simp only [wp_bind, wp_get, if_neg hname, hup, wp_set, hsame]
    have hload : m.load dir 0 (allRead 0) = _ := load_at hfirst.2
    rw [← zoneOf_zero m dir (allRead 0), wp_fetch, hload]
    simp only [wp_bind, wp_pure]
    have hloop := findLoop_spec nm (c := 0) (k := 0) (by decide) rfl (Nat.zero_le _)
      (by omega : m.size dir / entrySize < 0 + (m.size dir / entrySize + 1)) hthere rfl
      fun j hj => absurd hj (Nat.not_lt_zero j)
    refine wp_mono hloop (fun r _ hr => ?_) fun _ _ he => he
    rw [hr]
  unfold Dirs.found
  cases hx : findEntry dir name allRead m with
  | ok r m' =>
    have hr := wp_ok hrun hx
    rw [hr]
  | error e m' => exact (wp_error hrun hx).elim

/-! ## A directory with other bytes in it -/

/-- The directory has the bytes `g` now; its zones are where they were. -/
structure View (m m' : Dirs) (dir : Ino) (size : Nat) (g : Nat → Byte) : Prop where
  fair   : Fair (m'.vol dir.1).disk
  file   : (m'.vol dir.1).disk.file dir.2 = true
  size   : m'.size dir = size
  root   : m'.root = m.root
  imount : m'.imount = m.imount
  kept   : ∀ c, c < maxBlock → (m.vol dir.1).disk.at dir.2 (dataPos c) ≠ 0 →
    (m'.vol dir.1).disk.at dir.2 (dataPos c) = (m.vol dir.1).disk.at dir.2 (dataPos c)
  bytes  : ∀ x, x / FileData.blockSize < maxBlock → m'.get dir x = g x

variable {size : Nat} {g : Nat → Byte}

theorem view_refl (h : Fair (m.vol dir.1).disk) (hfile : (m.vol dir.1).disk.file dir.2 = true) :
    View m m dir (m.size dir) (m.get dir) :=
  ⟨h, hfile, rfl, rfl, rfl, fun _ _ _ => rfl, fun _ _ => rfl⟩

theorem View.hold (h : View m m' dir size g) (bh : Buf) : View m (m'.hold bh) dir size g :=
  ⟨h.fair, h.file, h.size, h.root, h.imount, h.kept, h.bytes⟩

theorem View.there (h : View m m' dir size g) (hj : m.There dir j) : m'.There dir j :=
  ⟨hj.1, (h.kept _ hj.1 hj.2).trans_ne hj.2⟩

theorem View.slot (h : View m m' dir size g) (hj : m.There dir j) :
    m'.slot dir j = m.slot dir j := by
  unfold Dirs.slot
  rw [h.kept _ hj.1 hj.2]

theorem View.setSize (h : View m m' dir size g) (size' : Nat) :
    View m (m'.setSize dir size') dir size' g := by
  have hdisk : ((m'.setSize dir size').vol dir.1).disk = (m'.vol dir.1).disk := by
    simp [Dirs.setSize]
  have hget : ∀ x, (m'.setSize dir size').get dir x = m'.get dir x := by
    intro x
    unfold Dirs.get
    rw [hdisk]
  refine ⟨?_, ?_, by simp [Dirs.setSize, Dirs.size], h.root, h.imount, ?_, ?_⟩
  · rw [hdisk]
    exact h.fair
  · rw [hdisk]
    exact h.file
  · rw [hdisk]
    exact h.kept
  · intro x hx
    rw [hget, h.bytes x hx]

/-- A block that is added changes no byte. -/
theorem view_onDisk (h : Fair (m.vol dir.1).disk) (hfile : (m.vol dir.1).disk.file dir.2 = true)
    {disk : State} {z : Nat} (hbmap : (m.vol dir.1).disk.bmap dir.2 b true = some (disk, z))
    (hdisk : OnDisk m dir.1 disk m') :
    View m m' dir (m.size dir) (m.get dir) ∧
      (z ≠ 0 → b < maxBlock ∧ (m'.vol dir.1).disk.at dir.2 (dataPos b) = z) := by
  rw [← bmapIo_true] at hbmap
  obtain ⟨hmax, hkept, hat⟩ := bmapIo_spec h hfile hbmap
  obtain ⟨t, y, hcreate, hreached⟩ := bmapIo_create h hfile hmax fun _ => true
  rw [hbmap] at hcreate
  cases hcreate
  have hsame := hdisk.disk
  refine ⟨⟨?_, ?_, ?_, hdisk.root, hdisk.imount, ?_, ?_⟩, fun hz => ⟨hmax, ?_⟩⟩
  · rw [hsame]
    exact hkept.fair
  · rw [hsame, hkept.file]
    exact hfile
  · simp [Dirs.size, hdisk.vol]
  · intro c hc hne
    rw [hsame]
    exact hreached.kept _ ⟨hfile, dataPos_valid hc⟩ hne
  · intro x hx
    unfold Dirs.get
    rw [hsame]
    exact hkept.content dir.2 x hfile hx
  · rw [hsame]
    exact hat hz

/-- Bytes that are put into a block of data move no zone. -/
theorem at_putBytes {s : State} {x : Nat} (h : Fair s) (hn : s.file n = true) (hb : b < maxBlock)
    (hz : s.at n (dataPos b) ≠ 0) (buf : List Byte) {c : Nat} (hc : c < maxBlock) :
    (putBytes s (s.at n (dataPos b)) x buf).at n (dataPos c) = s.at n (dataPos c) := by
  obtain ⟨hinode, -, -, -, hblock⟩ := putBytes_frame s (s.at n (dataPos b)) x buf
  refine at_congr_index hinode (fun _ _ hr hindex _ => ?_) ⟨hn, dataPos_valid hc⟩
  exact hblock _ (data_ne_index h hn hb hz hr hindex)

/-- Bytes are put into the directory at position `x`. -/
def Dirs.put (m : Dirs) (dir : Ino) (x : Nat) (buf : List Byte) : Dirs :=
  m.setDisk dir.1 (putBytes (m.vol dir.1).disk
    ((m.vol dir.1).disk.at dir.2 (dataPos (x / FileData.blockSize))) (x % FileData.blockSize) buf)

theorem put_disk (m : Dirs) (dir : Ino) (x : Nat) (buf : List Byte) :
    ((m.put dir x buf).vol dir.1).disk = putBytes (m.vol dir.1).disk
      ((m.vol dir.1).disk.at dir.2 (dataPos (x / FileData.blockSize))) (x % FileData.blockSize) buf := by
  simp [Dirs.put, Dirs.setDisk]

theorem put_at (h : View m m' dir size g) {x : Nat} (hb : x / FileData.blockSize < maxBlock)
    (hz : (m'.vol dir.1).disk.at dir.2 (dataPos (x / FileData.blockSize)) ≠ 0) (buf : List Byte) {c : Nat}
    (hc : c < maxBlock) : ((m'.put dir x buf).vol dir.1).disk.at dir.2 (dataPos c) =
      (m'.vol dir.1).disk.at dir.2 (dataPos c) := by
  rw [put_disk]
  exact at_putBytes h.fair h.file hb hz buf hc

theorem view_put (h : View m m' dir size g) {x : Nat} (hb : x / FileData.blockSize < maxBlock)
    (hz : (m'.vol dir.1).disk.at dir.2 (dataPos (x / FileData.blockSize)) ≠ 0) (buf : List Byte)
    (hlen : x % FileData.blockSize + buf.length ≤ FileData.blockSize) :
    View m (m'.put dir x buf) dir size (overwrite g x buf) := by
  obtain ⟨hfair, hinode, -, hbytes⟩ := content_putBytes h.fair h.file hb rfl hz buf hlen
  refine ⟨?_, ?_, ?_, h.root, h.imount, fun c hc hne => ?_, fun y hy => ?_⟩
  · rw [put_disk]
    exact hfair
  · rw [put_disk]
    unfold State.file
    rw [hinode]
    exact h.file
  · rw [← h.size]
    simp [Dirs.put, Dirs.setDisk, Dirs.size]
  · rw [put_at h hb hz buf hc, h.kept c hc hne]
  · unfold Dirs.get
    rw [put_disk, hbytes y hy]
    exact overwrite_congr x buf (h.bytes y hy)

/-! ## The parts of an entry -/

theorem setInode_put (m : Dirs) (dir : Ino) (j v : Nat) :
    m.setInode (m.slot dir j).1 (m.slot dir j).2 v =
      m.put dir (entrySize * j) [Fin.ofNat 256 v, Fin.ofNat 256 (v / 256)] := by
  obtain ⟨hdiv, hmod⟩ := entry_place (j := j) (e := 0) (by decide)
  rw [Nat.add_zero] at hdiv hmod
  unfold Dirs.put
  rw [hdiv, hmod]
  rfl

theorem putName_put (m : Dirs) (dir : Ino) (j : Nat) (name : List Byte) :
    m.putName (m.slot dir j).1 (m.slot dir j).2 name =
      m.put dir (entrySize * j + 2) ((List.range nameLen).map fun t => name.getD t 0) := by
  obtain ⟨hdiv, hmod⟩ := entry_place (j := j) (e := 2) (by decide)
  unfold Dirs.put
  rw [hdiv, hmod]
  rfl

/-! ## add_entry -/

/-- The blocks of a directory are there, on a device whose zones are in order. -/
structure Whole (m : Dirs) (dir : Ino) : Prop where
  fair  : Fair (m.vol dir.1).disk
  file  : (m.vol dir.1).disk.file dir.2 = true
  sized : entrySize ∣ m.size dir
  first : m.There dir 0
  there : ∀ j, j < m.size dir / entrySize → m.There dir j

/-- Entry `j`, the first one that is free, has the name `nm` now and no inode yet. -/
structure Entered (m m' : Dirs) (dir : Ino) (nm : List Byte) (j : Nat) (g : Nat → Byte) : Prop where
  view  : View m m' dir (entrySize * max (m.size dir / entrySize) (j + 1)) g
  there : m'.There dir j
  free  : j < m.size dir / entrySize → m.inodeAt dir j = 0
  other : ∀ x, x / entrySize ≠ j → g x = m.get dir x
  name  : ∀ t, t < nameLen → g (entrySize * j + 2 + t) = nm.getD t 0

theorem overwrite_other {f : Nat → Byte} {e x : Nat} {buf : List Byte}
    (he : e + buf.length ≤ entrySize) (hx : x / entrySize ≠ j) :
    overwrite f (entrySize * j + e) buf x = f x := by
  refine if_neg ?_
  simp only [entrySize] at *
  omega

theorem slot_of_at (h : (m'.vol dir.1).disk.at dir.2 (dataPos (j / dirEntriesPerBlock)) =
    (m.vol dir.1).disk.at dir.2 (dataPos (j / dirEntriesPerBlock))) :
    m'.slot dir j = m.slot dir j := by
  unfold Dirs.slot
  rw [h]

/-- Bytes of an entry are written. -/
theorem view_entry {m₁ : Dirs} (h : View m m₁ dir size g) (hj : m₁.There dir j) {e : Nat}
    {buf : List Byte} (he : e < entrySize) (hlen : e + buf.length ≤ entrySize) :
    View m (m₁.put dir (entrySize * j + e) buf) dir size (overwrite g (entrySize * j + e) buf) ∧
      ∀ i, m₁.There dir i → (m₁.put dir (entrySize * j + e) buf).There dir i ∧
        (m₁.put dir (entrySize * j + e) buf).slot dir i = m₁.slot dir i := by
  obtain ⟨hdiv, hmod⟩ := entry_place (j := j) he
  have hb : (entrySize * j + e) / FileData.blockSize < maxBlock := hdiv ▸ hj.1
  have hz : (m₁.vol dir.1).disk.at dir.2 (dataPos ((entrySize * j + e) / FileData.blockSize)) ≠ 0 :=
    hdiv ▸ hj.2
  have hmod64 : j % dirEntriesPerBlock < 64 := Nat.mod_lt j (by decide)
  refine ⟨view_put h hb hz buf ?_, fun i hi => ?_⟩
  · rw [hmod]
    simp only [entrySize, FileData.blockSize] at *
    omega
  · have hat := put_at h hb hz buf hi.1
    exact ⟨⟨hi.1, hat.trans_ne hi.2⟩, slot_of_at hat⟩

/-- The inode of an entry is stored. -/
theorem view_setInode {m₁ : Dirs} (h : View m m₁ dir size g) (hj : m₁.There dir j) (v : Nat) :
    View m (m₁.setInode (m₁.slot dir j).1 (m₁.slot dir j).2 v) dir size
        (overwrite g (entrySize * j) [Fin.ofNat 256 v, Fin.ofNat 256 (v / 256)]) ∧
      ∀ i, m₁.There dir i → (m₁.setInode (m₁.slot dir j).1 (m₁.slot dir j).2 v).There dir i ∧
        (m₁.setInode (m₁.slot dir j).1 (m₁.slot dir j).2 v).slot dir i = m₁.slot dir i := by
  rw [setInode_put]
  exact view_entry (e := 0) h hj (by decide) (by simp [entrySize])

variable (nm) in
/-- The name of an entry is written. -/
theorem entered_putName {m₁ : Dirs} (h : View m m₁ dir size g) (hj : m₁.There dir j)
    (hsize : size = entrySize * max (m.size dir / entrySize) (j + 1))
    (hfree : j < m.size dir / entrySize → m.inodeAt dir j = 0)
    (hother : ∀ x, x / entrySize ≠ j → g x = m.get dir x) :
    ∃ g', Entered m (m₁.putName (m₁.slot dir j).1 (m₁.slot dir j).2 nm) dir nm j g' ∧
      (m₁.putName (m₁.slot dir j).1 (m₁.slot dir j).2 nm).slot dir j = m₁.slot dir j := by
  rw [putName_put]
  have hlen : 2 + ((List.range nameLen).map fun t => nm.getD t 0).length ≤ entrySize := by
    simp [nameLen, entrySize]
  obtain ⟨hput, hplace⟩ := view_entry h hj (by decide) hlen
  obtain ⟨hthere, hslot⟩ := hplace j hj
  refine ⟨_, ⟨hsize ▸ hput, hthere, hfree, fun x hx => ?_, fun t ht => ?_⟩, hslot⟩
  · rw [overwrite_other (by simp [nameLen, entrySize]) hx, hother x hx]
  · unfold overwrite
    rw [if_pos (by rw [List.length_map, List.length_range]; omega), Nat.add_sub_cancel_left,
      List.getD_eq_getElem _ _ (by rw [List.length_map, List.length_range]; exact ht),
      List.getElem_map, List.getElem_range]

variable (nm) in
/-- The entry is taken. -/
theorem takeEntry_spec {m₁ : Dirs} (hdvd : entrySize ∣ m.size dir)
    (h : View m m₁ dir (m.size dir) (m.get dir)) (hj : m₁.There dir j)
    (hle : j ≤ m.size dir / entrySize)
    (hfree : m.size dir ≤ j * entrySize ∨ m₁.deInode (m₁.slot dir j).1 (m₁.slot dir j).2 = 0)
    (hino : j < m.size dir / entrySize → m.inodeAt dir j = 0) {E : Fault → Dirs → Prop} :
    wp (takeEntry dir nm j (m₁.slot dir j).1 (m₁.slot dir j).2)
      (fun r m' => r = true ∧ m'.slot dir j = m₁.slot dir j ∧ ∃ g, Entered m m' dir nm j g) E m₁ := by
  have hn : entrySize * (m.size dir / entrySize) = m.size dir := Nat.mul_div_cancel' hdvd
  unfold takeEntry
  by_cases hend : m.size dir ≤ j * entrySize
  · -- past the end: the inode is cleared, and the directory grows
    have hlast : j = m.size dir / entrySize := by
      have : entrySize * (m.size dir / entrySize) ≤ entrySize * j := by
        rw [hn, Nat.mul_comm]
        exact hend
      exact Nat.le_antisymm hle (Nat.le_of_mul_le_mul_left this (by decide))
    obtain ⟨hput, hplaces⟩ := view_setInode h hj 0
    obtain ⟨hthere₀, hslot₀⟩ := hplaces j hj
    have hview := hput.setSize ((j + 1) * entrySize)
    have hdisk : (((m₁.setInode (m₁.slot dir j).1 (m₁.slot dir j).2 0).setSize dir
        ((j + 1) * entrySize)).vol dir.1).disk =
        ((m₁.setInode (m₁.slot dir j).1 (m₁.slot dir j).2 0).vol dir.1).disk := by
      simp [Dirs.setSize]
    have hslot : ((m₁.setInode (m₁.slot dir j).1 (m₁.slot dir j).2 0).setSize dir
        ((j + 1) * entrySize)).slot dir j = m₁.slot dir j := by
      refine Eq.trans (slot_of_at ?_) hslot₀
      rw [hdisk]
    have hsize : (j + 1) * entrySize = entrySize * max (m.size dir / entrySize) (j + 1) := by
      rw [Nat.max_eq_right (by omega), Nat.mul_comm]
    have hthere : ((m₁.setInode (m₁.slot dir j).1 (m₁.slot dir j).2 0).setSize dir
        ((j + 1) * entrySize)).There dir j := by
      refine ⟨hj.1, ?_⟩
      rw [hdisk]
      exact hthere₀.2
    obtain ⟨g', hentered, hplace⟩ := entered_putName nm hview hthere hsize hino
      fun x hx => overwrite_other (e := 0) (by decide) hx
    rw [hslot] at hentered hplace
    simp only [wp_bind, wp_get, h.size, if_pos hend, wp_set, deInode_setSize, deInode_clear, if_true,
      wp_pure, true_and]
    exact ⟨hplace, g', hentered⟩
  · have hsize : m.size dir = entrySize * max (m.size dir / entrySize) (j + 1) := by
      have hlt : j < m.size dir / entrySize := by
        rw [Nat.lt_div_iff_mul_lt' hdvd, Nat.mul_comm]
        omega
      rw [Nat.max_eq_left (by omega), hn]
    obtain ⟨g', hentered, hplace⟩ := entered_putName nm h hj hsize hino fun _ _ => rfl
    simp only [wp_bind, wp_get, h.size, if_neg hend, wp_pure, hfree.resolve_left hend, if_true,
      wp_set, true_and]
    exact ⟨hplace, g', hentered⟩

/-- A new block is needed: the entries fill their blocks, and are all in use. -/
def Dirs.Crowded (m : Dirs) (dir : Ino) : Prop :=
  (m.size dir / entrySize) % dirEntriesPerBlock = 0 ∧
    ∀ j, j < m.size dir / entrySize → m.inodeAt dir j ≠ 0

/-- `create_block` behind the last block. -/
def Dirs.create (m : Dirs) (dir : Ino) : DM Nat :=
  bmap dir (m.size dir / entrySize / dirEntriesPerBlock) true fun _ => true

/-- What `add_entry` returns: an entry, or nothing if there is no room for the
block that it needs. -/
def Adds (m : Dirs) (dir : Ino) (nm : List Byte) (r : Option (Buf × Nat)) (m' : Dirs) : Prop :=
  match r with
  | none => m.Crowded dir ∧ wp (m.create dir) (fun z _ => z = 0) (fun _ _ => False) m
  | some e => ∃ j g, j ≤ m.size dir / entrySize ∧ m'.slot dir j = e ∧ Entered m m' dir nm j g

/-- It panics only if `create_block` does. -/
def AddPanics (m : Dirs) (dir : Ino) (e : Fault) : Prop :=
  e = .panic ∧ m.Crowded dir ∧ wp (m.create dir) (fun _ _ => False) (fun e _ => e = .panic) m

variable (nm) in
/-- One entry. -/
theorem addHere_spec {rounds k c : Nat} {cur : Buf} (h : Whole m dir) (hk : k < dirEntriesPerBlock)
    (hi : i = dirEntriesPerBlock * c + k) (hle : i ≤ m.size dir / entrySize) (hthere : m.There dir i)
    (hcur : cur = (dir.1, (m.vol dir.1).disk.at dir.2 (dataPos c)))
    (ih : i < m.size dir / entrySize → m.inodeAt dir i ≠ 0 →
      wp (addLoop dir nm allRead rounds (i + 1) (some cur) (k + 1))
        (Adds m dir nm) (fun e _ => AddPanics m dir e) (m.hold cur)) :
    wp (do
        if ← takeEntry dir nm i cur k then return some (cur, k)
        else addLoop dir nm allRead rounds (i + 1) (some cur) (k + 1))
      (Adds m dir nm) (fun e _ => AddPanics m dir e) (m.hold cur) := by
  have hslot : (m.hold cur).slot dir i = (cur, k) := by rw [hcur, slot_eq hk hi, hold_vol]
  have hino : (m.hold cur).deInode cur k = m.inodeAt dir i := by
    have hplace := slot_inode (show (m.hold cur).There dir i from hthere)
    rw [hslot] at hplace
    exact hplace
  have hn : entrySize * (m.size dir / entrySize) = m.size dir := Nat.mul_div_cancel' h.sized
  rw [wp_bind]
  by_cases hused : i < m.size dir / entrySize ∧ m.inodeAt dir i ≠ 0
  · have hsize : i * entrySize < (m.hold cur).size dir := by
      have hlt := Nat.mul_lt_mul_of_pos_left hused.1 (by decide : 0 < entrySize)
      rw [hn, Nat.mul_comm] at hlt
      exact hlt
    rw [takeEntry_used hsize (hino ▸ hused.2), if_neg (by simp)]
    exact ih hused.1 hused.2
  · have hfree : m.size dir ≤ i * entrySize ∨ (m.hold cur).deInode cur k = 0 := by
      rw [hino]
      by_cases hlt : i < m.size dir / entrySize
      · exact Or.inr (not_not.mp fun hne => hused ⟨hlt, hne⟩)
      · refine Or.inl ?_
        rw [← hn, Nat.mul_comm i]
        exact Nat.mul_le_mul_left _ (Nat.le_of_not_lt hlt)
    have htake := takeEntry_spec nm (E := fun e _ => AddPanics m dir e)
      h.sized ((view_refl h.fair h.file).hold cur) (j := i) hthere hle (by rw [hslot]; exact hfree)
      fun hlt => not_not.mp fun hne => hused ⟨hlt, hne⟩
    rw [hslot] at htake
    refine wp_mono htake ?_ fun _ _ he => he
    intro r m' ⟨hr, hplace, g, hentered⟩
    rw [if_pos hr]
    exact ⟨i, g, hle, hplace, hentered⟩

variable (nm) in
/-- A block is needed behind the last one. -/
theorem addNext_spec (rounds k : Nat) {c : Nat} (h : Whole m dir)
    (hn : m.size dir / entrySize = dirEntriesPerBlock * c)
    (hused : ∀ j, j < m.size dir / entrySize → m.inodeAt dir j ≠ 0) :
    wp (do
        let block ← bmap dir c true (allRead c)
        if block = 0 then return none
        else
          match ← bread (allRead c 2) (dir.1, block) with
          | none => addLoop dir nm allRead rounds (m.size dir / entrySize + dirEntriesPerBlock) none k
          | some cur =>
            if ← takeEntry dir nm (m.size dir / entrySize) cur 0 then return some (cur, 0)
            else addLoop dir nm allRead rounds (m.size dir / entrySize + 1) (some cur) 1)
      (Adds m dir nm) (fun e _ => AddPanics m dir e) m := by
  have hdiv : m.size dir / entrySize / dirEntriesPerBlock = c := by
    rw [hn, Nat.mul_div_cancel_left _ (by decide)]
  have hmod : m.size dir / entrySize % dirEntriesPerBlock = 0 := by rw [hn, Nat.mul_mod_right]
  have hcreate : m.create dir = bmap dir c true (allRead c) := by
    unfold Dirs.create
    rw [hdiv]
    rfl
  have hsize : m.size dir ≤ m.size dir / entrySize * entrySize := by
    rw [Nat.div_mul_cancel h.sized]
  have hbmap := bmap_onDisk m dir c true
  rw [wp_bind]
  cases hx : bmap dir c true (allRead c) m with
  | error e m₁ =>
    have he := wp_error hbmap hx
    have hstop : wp (bmap dir c true (allRead c)) (fun _ _ => False) (fun e _ => e = .panic) m := by
      unfold wp
      rw [hx]
      exact he
    unfold wp
    rw [hx]
    exact ⟨he, ⟨hmod, hused⟩, hcreate ▸ hstop⟩
  | ok z m₁ =>
    obtain ⟨disk, hdisk, hon⟩ := wp_ok hbmap hx
    rw [wp_of_ok hx]
    obtain ⟨hview, hat⟩ := view_onDisk h.fair h.file hdisk hon
    by_cases hz : z = 0
    · rw [if_pos hz]
      refine ⟨⟨hmod, hused⟩, ?_⟩
      rw [hcreate, wp_of_ok hx]
      exact hz
    obtain ⟨hmax, hzone⟩ := hat hz
    have hthere : m₁.There dir (m.size dir / entrySize) := by
      refine ⟨hdiv ▸ hmax, ?_⟩
      rw [hdiv, hzone]
      exact hz
    have hslot : (m₁.hold (dir.1, z)).slot dir (m.size dir / entrySize) = ((dir.1, z), 0) := by
      unfold Dirs.slot
      rw [hdiv, hmod, hold_vol, hzone]
    rw [if_neg hz, wp_bind, wp_bread, if_pos (by simp [Dirs.readable, allRead])]
    dsimp only
    have htake := takeEntry_spec nm
      (E := fun e _ => AddPanics m dir e) h.sized (hview.hold (dir.1, z)) (j := m.size dir / entrySize) hthere
      (Nat.le_refl _) (Or.inl hsize) fun hlt => absurd hlt (Nat.lt_irrefl _)
    rw [hslot] at htake
    rw [wp_bind]
    refine wp_mono htake ?_ fun _ _ he => he
    intro r m' ⟨hr, hplace, g, hentered⟩
    rw [if_pos hr]
    exact ⟨_, g, Nat.le_refl _, hplace, hentered⟩

/-- The loop of `add_entry`. -/
theorem addLoop_spec {rounds k c : Nat} {cur : Buf} (h : Whole m dir) (hk : k ≤ dirEntriesPerBlock)
    (hi : i = dirEntriesPerBlock * c + k) (hle : i ≤ m.size dir / entrySize)
    (hrounds : m.size dir / entrySize < i + rounds) (hc : m.There dir (dirEntriesPerBlock * c))
    (hcur : cur = (dir.1, (m.vol dir.1).disk.at dir.2 (dataPos c)))
    (hused : ∀ j, j < i → m.inodeAt dir j ≠ 0) :
    wp (addLoop dir nm allRead rounds i (some cur) k)
      (Adds m dir nm) (fun e _ => AddPanics m dir e) (m.hold cur) := by
  induction rounds generalizing i k c cur with
  | zero => omega
  | succ rounds ih =>
    have hused' : m.inodeAt dir i ≠ 0 → ∀ j, j < i + 1 → m.inodeAt dir j ≠ 0 := by
      intro hne j hj
      by_cases heq : j = i
      · rw [heq]
        exact hne
      · exact hused j (by omega)
    unfold addLoop
    by_cases hblock : k < dirEntriesPerBlock
    · have hthere : m.There dir i := by
        unfold Dirs.There at hc ⊢
        rw [Nat.mul_div_cancel_left _ (by decide)] at hc
        rw [(entry_div hblock hi).1]
        exact hc
      simp only [wp_bind, wp_touch_hold, if_pos hblock]
      have hhere := addHere_spec nm h hblock hi hle hthere hcur fun hlt hne =>
        ih (by omega) (by omega : i + 1 = dirEntriesPerBlock * c + (k + 1)) hlt (by omega) hc hcur
          (hused' hne)
      simpa only [wp_bind] using hhere
    · obtain ⟨hnext, hdiv⟩ := entry_next hk hblock hi
      simp only [wp_bind, wp_touch_hold, if_neg hblock, wp_brelse_hold, hdiv]
      by_cases hin : i < m.size dir / entrySize
      · have hthere := h.there i hin
        have hmax := hthere.1
        have hzone := hthere.2
        rw [hdiv] at hmax hzone
        have hlook : m.zoneOf dir (c + 1) (allRead (c + 1)) =
            (m.vol dir.1).disk.at dir.2 (dataPos (c + 1)) := zoneOf_at m dir (c + 1)
        have hhere := addHere_spec nm h (by decide : 0 < dirEntriesPerBlock)
          (by omega : i = dirEntriesPerBlock * (c + 1) + 0) hle hthere rfl fun hlt hne =>
            ih (by decide) (by omega : i + 1 = dirEntriesPerBlock * (c + 1) + (0 + 1)) hlt (by omega)
              (hnext ▸ hthere) rfl (hused' hne)
        rw [wp_bmap_lookup fun _ => hlook.trans_ne hzone, if_neg (by omega), hlook, if_neg hzone,
          wp_bind, wp_bread, if_pos (by simp [Dirs.readable, allRead])]
        simpa only [wp_bind] using hhere
      · have hend : i = m.size dir / entrySize := by omega
        have hlast := addNext_spec nm rounds k h (hend ▸ hnext) (hend ▸ hused)
        rw [← hend, wp_bind] at hlast
        exact hlast

/-- **`add_entry`** on a directory whose blocks are there. -/
theorem addEntry_spec (h : Whole m dir) (hname : name ≠ []) :
    wp (addEntry dir name allRead) (Adds m dir (name.take nameLen))
      (fun e _ => AddPanics m dir e) m := by
  unfold addEntry
  have hload : m.load dir 0 (allRead 0) = _ := load_at h.first.2
  simp only [wp_bind, wp_get, if_neg hname]
  rw [← zoneOf_zero m dir (allRead 0), wp_fetch, hload]
  exact addLoop_spec (c := 0) (k := 0) h (by decide) rfl (Nat.zero_le _) (by omega) h.first rfl
    fun j hj => absurd hj (Nat.not_lt_zero j)

/-! ## Both together -/

theorem goUp_congr (hroot : m'.root = m.root) (himount : m'.imount = m.imount) (l : List Byte) :
    m'.goUp dir l = m.goUp dir l := by
  unfold Dirs.goUp
  rw [hroot, himount]

/-- The name that is looked for is a short one again, without a zero. -/
theorem goUp_name {d : Ino} (hup : m.goUp dir (name.take nameLen) = (d, nm)) (hnul : 0 ∉ name) :
    nm.length ≤ nameLen ∧ 0 ∉ nm := by
  have htake : (name.take nameLen).length ≤ nameLen ∧ 0 ∉ name.take nameLen :=
    ⟨by simp, fun hmem => hnul (List.mem_of_mem_take hmem)⟩
  have hcase : nm = [46] ∨ nm = name.take nameLen := by
    unfold Dirs.goUp at hup
    split_ifs at hup <;> cases hup <;> simp
  obtain rfl | rfl := hcase
  · decide
  · exact htake

/-- The inode is stored into the entry. -/
structure Stored (m m₂ : Dirs) (dir : Ino) (nm : List Byte) (j : Nat) (e : Buf × Nat) : Prop where
  root   : m₂.root = m.root
  imount : m₂.imount = m.imount
  bound  : j ≤ m.size dir / entrySize
  size   : m₂.size dir / entrySize = max (m.size dir / entrySize) (j + 1)
  slot   : m₂.slot dir j = e
  first  : m₂.There dir 0
  there  : ∀ i, i < max (m.size dir / entrySize) (j + 1) → m₂.There dir i
  slots  : ∀ i, i < m.size dir / entrySize → m₂.slot dir i = m.slot dir i
  same   : ∀ i l, i < m.size dir / entrySize → i ≠ j → m₂.hit dir l i = m.hit dir l i
  unused : ∀ l, j < m.size dir / entrySize → m.hit dir l j = false
  hit    : ∀ l, l.length ≤ nameLen → 0 ∉ l → (m₂.hit dir l j = true ↔ l = nm)

theorem stored_setInode {g : Nat → Byte} (h : Whole m dir) (he : Entered m m' dir nm j g)
    (hlen : nm.length ≤ nameLen) (hnul : 0 ∉ nm) (hle : j ≤ m.size dir / entrySize) {v : Nat}
    (hv : v % 65536 ≠ 0) :
    Stored m (m'.setInode (m'.slot dir j).1 (m'.slot dir j).2 v) dir nm j (m'.slot dir j) := by
  obtain ⟨hview, hplaces⟩ := view_setInode he.view he.there v
  have hthere : ∀ i, i < max (m.size dir / entrySize) (j + 1) → m'.There dir i := by
    intro i hi
    by_cases hij : i = j
    · exact hij ▸ he.there
    · exact he.view.there (h.there i (by omega))
  have hfirst := hplaces 0 (he.view.there h.first)
  have hself := hplaces j he.there
  generalize m'.setInode (m'.slot dir j).1 (m'.slot dir j).2 v = m₂ at hview hplaces hfirst hself
  have hbytes : ∀ i e, m₂.There dir i → e < entrySize → m₂.get dir (entrySize * i + e) =
      overwrite g (entrySize * j) [Fin.ofNat 256 v, Fin.ofNat 256 (v / 256)] (entrySize * i + e) := by
    intro i e hi hlt
    refine hview.bytes _ ?_
    rw [(entry_place hlt).1]
    exact hi.1
  refine ⟨hview.root, hview.imount, hle, ?_, hself.2, hfirst.1, fun i hi => (hplaces i (hthere i hi)).1,
    fun i hi => ?_, fun i l hi hij => ?_, fun l hj => ?_, fun l hl hl₀ => ?_⟩
  · rw [hview.size, Nat.mul_div_cancel_left _ (by decide)]
  · have hi' := h.there i hi
    rw [(hplaces i (he.view.there hi')).2, he.view.slot hi']
  · have hi' := h.there i hi
    have hi₂ := (hplaces i (he.view.there hi')).1
    refine hit_same hi' hi₂ fun e hlt => ?_
    have hout : (entrySize * i + e) / entrySize ≠ j := by
      rw [Nat.mul_add_div (by decide), Nat.div_eq_of_lt hlt, Nat.add_zero]
      exact hij
    rw [hbytes i e hi₂ hlt, ← Nat.add_zero (entrySize * j),
      overwrite_other (by simp [entrySize]) hout, he.other _ hout]
  · by_contra hhit
    rw [Bool.not_eq_false, hit_iff (h.there j hj)] at hhit
    exact hhit.1 (he.free hj)
  · have hino : m₂.inodeAt dir j ≠ 0 := by
      have hlow := hbytes j 0 hself.1 (by decide)
      have hhigh := hbytes j 1 hself.1 (by decide)
      unfold overwrite at hlow hhigh
      rw [if_pos ⟨Nat.le_add_right .., by simp⟩, Nat.add_sub_cancel_left] at hlow hhigh
      unfold Dirs.inodeAt
      rw [← Nat.add_zero (entrySize * j), hlow, Nat.add_zero, hhigh]
      show v % 256 + 256 * (v / 256 % 256) ≠ 0
      omega
    refine hit_named hself.1 hino (fun t ht => ?_) hlen hnul hl hl₀
    have hname := he.name t ht
    have hlt : 2 + t < entrySize := by
      simp only [nameLen, entrySize] at *
      omega
    rw [Nat.add_assoc, hbytes j (2 + t) hself.1 hlt]
    unfold overwrite
    rw [if_neg (by simp only [List.length_cons, List.length_nil]; omega), ← Nat.add_assoc, hname]

/-- The new entry is found under its name. -/
theorem Stored.found_new {e : Buf × Nat} (hs : Stored m m₂ dir nm j e) (hname : name ≠ [])
    (hup : m.goUp dir (name.take nameLen) = (dir, nm)) (hlen : nm.length ≤ nameLen) (hnul : 0 ∉ nm)
    (hnone : ∀ i, i < m.size dir / entrySize → m.hit dir nm i = false) :
    m₂.found dir name = some (dir, some e) := by
  have hup₂ : m₂.goUp dir (name.take nameLen) = (dir, nm) := (goUp_congr hs.root hs.imount _).trans hup
  have hle := hs.bound
  have hfirst : (List.range (m₂.size dir / entrySize)).find? (m₂.hit dir nm) = some j := by
    rw [List.find?_range_eq_some]
    refine ⟨(hs.hit nm hlen hnul).mpr rfl, ?_, fun i hi => ?_⟩
    · rw [List.mem_range, hs.size]
      omega
    · rw [hs.same i nm (by omega) (by omega), hnone i (by omega)]
      rfl
  rw [found_eq hname hup₂ hs.first (hs.size ▸ hs.there), hfirst, Option.map_some, hs.slot]

/-- Every other name is found where it was. -/
theorem Stored.found_old {e : Buf × Nat} {l : List Byte} (h : Whole m dir)
    (hs : Stored m m₂ dir nm j e) (hup : m.goUp dir (name.take nameLen) = (dir, l))
    (hlen : l.length ≤ nameLen) (hnul : 0 ∉ l) (hne : l ≠ nm) :
    m₂.found dir name = m.found dir name := by
  by_cases hname : name = []
  · rw [hname, found_nil, found_nil]
  have hup₂ : m₂.goUp dir (name.take nameLen) = (dir, l) := (goUp_congr hs.root hs.imount _).trans hup
  have hle := hs.bound
  have hmiss : m₂.hit dir l j = false := by
    rw [← Bool.not_eq_true, hs.hit l hlen hnul]
    exact hne
  -- the new entry is passed over
  have hsame : ∀ i, i < m.size dir / entrySize → m₂.hit dir l i = m.hit dir l i := by
    intro i hi
    by_cases hij : i = j
    · subst hij
      rw [hmiss, hs.unused l hi]
    · exact hs.same i l hi hij
  rw [found_eq hname hup h.first h.there, found_eq hname hup₂ hs.first (hs.size ▸ hs.there)]
  cases hfind : (List.range (m.size dir / entrySize)).find? (m.hit dir l) with
  | none =>
    rw [List.find?_range_eq_none] at hfind
    have hfind₂ : (List.range (m₂.size dir / entrySize)).find? (m₂.hit dir l) = none := by
      rw [List.find?_range_eq_none]
      intro i hi
      rw [hs.size] at hi
      by_cases hij : i = j
      · simp [hij, hmiss]
      · rw [hsame i (by omega)]
        exact hfind i (by omega)
    rw [hfind₂]
    rfl
  | some i =>
    rw [List.find?_range_eq_some] at hfind
    obtain ⟨hhit, hmem, hbefore⟩ := hfind
    rw [List.mem_range] at hmem
    have hfind₂ : (List.range (m₂.size dir / entrySize)).find? (m₂.hit dir l) = some i := by
      rw [List.find?_range_eq_some]
      refine ⟨(hsame i hmem).trans hhit, ?_, fun i' hi' => ?_⟩
      · rw [List.mem_range, hs.size]
        omega
      · rw [hsame i' (by omega)]
        exact hbefore i' hi'
    rw [hfind₂, Option.map_some, Option.map_some, hs.slots i hmem]

theorem take_dots (m : Dirs) (dir : Ino) (hdots : name ≠ [46, 46]) :
    m.goUp dir (name.take nameLen) = (dir, name.take nameLen) := by
  refine if_neg fun heq => hdots ?_
  have hlen := congrArg List.length heq
  rw [List.length_take] at hlen
  have hshort : name.length = 2 := by
    simp only [nameLen, List.length_cons, List.length_nil] at hlen
    omega
  rw [List.take_of_length_le (by rw [hshort]; decide)] at heq
  exact heq

/-- **What is added is found**: a name that `find_entry` does not find is added
by `add_entry`, and an inode number is stored into the entry. Then `find_entry`
finds the entry under the names that agree with it in the first 14 bytes, and
finds every other name as before, where `..` may stand for `.` in the root of
the process; the directory reaches over the entry. `add_entry` fails only if a
block is needed that `create_block` does not give. -/
theorem entry_added (h : Whole m dir) (hname : name ≠ []) (hnul : 0 ∉ name)
    (hdots : name ≠ [46, 46]) (habsent : m.found dir name = some (dir, none)) :
    wp (addEntry dir name allRead) (fun r m' =>
      match r with
      | none => m.Crowded dir ∧ wp (m.create dir) (fun z _ => z = 0) (fun _ _ => False) m
      | some e => ∀ v, 0 < v → v < 65536 →
        (∃ j, (m'.setInode e.1 e.2 v).slot dir j = e ∧
          (j + 1) * entrySize ≤ (m'.setInode e.1 e.2 v).size dir) ∧
        ∀ name' l, 0 ∉ name' → m.goUp dir (name'.take nameLen) = (dir, l) →
          (m'.setInode e.1 e.2 v).found dir name' =
            if l = name.take nameLen then some (dir, some e) else m.found dir name')
      (fun e _ => AddPanics m dir e) m := by
  have hup := take_dots m dir hdots
  obtain ⟨hlen, hnul₁⟩ := goUp_name hup hnul
  have hnone : ∀ i, i < m.size dir / entrySize → m.hit dir (name.take nameLen) i = false := by
    intro i hi
    rw [found_eq hname hup h.first h.there, Option.some_inj, Prod.mk.injEq, Option.map_eq_none_iff,
      List.find?_range_eq_none] at habsent
    simpa using habsent.2 i hi
  refine wp_mono (addEntry_spec h hname) ?_ fun _ _ he => he
  intro r m' hr
  cases r with
  | none => exact hr
  | some e =>
    intro v hv hv'
    obtain ⟨j, g, hle, hslot, hentered⟩ := hr
    have hs := stored_setInode h hentered hlen hnul₁ hle (v := v) (by omega)
    rw [hslot] at hs
    have hdvd : entrySize ∣ (m'.setInode e.1 e.2 v).size dir := by
      have hsize := (view_setInode hentered.view hentered.there v).1.size
      rw [hslot] at hsize
      rw [hsize]
      exact Nat.dvd_mul_right ..
    refine ⟨⟨j, hs.slot, ?_⟩, fun name' l hnul' hup' => ?_⟩
    · have hsize := hs.size
      rw [← Nat.div_mul_cancel hdvd, hsize]
      exact Nat.mul_le_mul_right _ (Nat.le_max_right ..)
    · obtain ⟨hlen', hnul₂⟩ := goUp_name hup' hnul'
      split_ifs with heq
      · subst heq
        have hname' : name' ≠ [] := by
          intro hnil
          subst hnil
          have hl : name.take nameLen = [] := (Prod.mk.inj hup').2.symm
          rw [List.take_eq_nil_iff] at hl
          exact hl.elim (by decide) hname
        exact hs.found_new hname' hup' hlen' hnul₂ hnone
      · exact hs.found_old h hup' hlen' hnul₂ heq

/-- A directory with the entry `b` of inode 5 in block `zone`, or without a block. -/
def oneBlock (zone size : Nat) : Dirs where
  vol _ :=
    { disk :=
        { firstdatazone := 5
          nzones := 13
          bits := 8192
          zmap := {0, 1}
          inode := fun n =>
            ⟨if n = 2 then iDirectory else 0, fun k => if n = 2 ∧ k = 0 then zone else 0⟩
          block := fun z w => if z = 5 then if w = 0 then 5 else if w = 1 then 98 else 0 else 0 }
      size := fun n => if n = 2 then size else 0 }
  super    := fun _ => true
  imount   := fun _ => none
  root     := (0x301, 1)
  icount   := fun _ => 1
  cached   := fun _ => false
  uptodate := fun _ => false
  count    := fun _ => 0
  held     := fun _ => 0

theorem whole_oneBlock : Whole (oneBlock 5 16) (0x301, 2) where
  fair  := fair_one (fun _ _ => rfl) (by decide) (by decide) (by decide) (by decide)
  file  := by decide
  sized := by decide
  first := ⟨by decide, by decide⟩
  there j hj := by
    obtain rfl : j = 0 := Nat.lt_one_iff.mp hj
    exact ⟨by decide, by decide⟩

theorem entry_added_one :
    wp (addEntry (0x301, 2) [97] allRead) (fun r m' => ∀ e, r = some e →
      (m'.setInode e.1 e.2 9).found (0x301, 2) [97] = some ((0x301, 2), some e))
      (fun _ _ => True) (oneBlock 5 16) := by
  have habsent : (oneBlock 5 16).found (0x301, 2) [97] = some ((0x301, 2), none) := rfl
  have hadded := entry_added whole_oneBlock (by decide) (by decide) (by decide) habsent
  refine wp_mono hadded ?_ fun _ _ _ => trivial
  intro r m' hr e he
  subst he
  exact (hr 9 (by decide) (by decide)).2 [97] [97] (by decide) rfl

set_option maxRecDepth 40000 in
/-- A directory that has lost its first block: nothing can be added, and no block
is asked for, though there is one. And one of 24 bytes: the new entry is the
second one, which its size does not reach over, and the name is not found. -/
theorem entry_lost :
    ((oneBlock 0 0).found (0x301, 2) [97] = some ((0x301, 2), none) ∧
      (∃ m', addEntry (0x301, 2) [97] allRead (oneBlock 0 0) = .ok none m') ∧
      ∃ m', (oneBlock 0 0).create (0x301, 2) (oneBlock 0 0) = .ok 6 m') ∧
    (oneBlock 5 24).There (0x301, 2) 0 ∧
      (oneBlock 5 24).found (0x301, 2) [97] = some ((0x301, 2), none) ∧
      ∃ m', addEntry (0x301, 2) [97] allRead (oneBlock 5 24) = .ok (some ((0x301, 5), 1)) m' ∧
        (m'.setInode (0x301, 5) 1 9).found (0x301, 2) [97] = some ((0x301, 2), none) :=
  ⟨⟨rfl, ⟨_, rfl⟩, _, rfl⟩, ⟨by decide, by decide⟩, rfl, _, rfl, by decide +kernel⟩

end Linux011.Fs.Directory
