import Mathlib.Algebra.BigOperators.Group.Finset.Basic
import Mathlib.Logic.Relation
import Linux011.Fs.Names
import Linux011.Fs.OpenFile

/-!
# Link counts

`open_namei`, `sys_mknod`, `sys_mkdir`, `sys_link`, `sys_unlink` and `sys_rmdir`
on one file system, one call at a time. Reads of directory blocks may fail, and so may
the allocation of inodes and blocks. `i_nlinks` is one byte.

* `Good` — a consistent file system, in which the counts are exact;
* `good_step` — a call that adds no link to an inode that has 255 leaves it so;
* `link_counts` — runs of such calls;
* `link_wraps` — what happens otherwise.
-/

namespace Linux011.Fs.LinkCount

open Linux011.Fs.Names (Name Entry match_ nameLen dirEntriesPerBlock dot dotdot)
open Linux011.Fs.OpenFile (oAccmode oWronly oCreat oExcl oTrunc accMode)

def eperm : Int := 1
def enoent : Int := 2
def eacces : Int := 13
def eexist : Int := 17
def enotdir : Int := 20
def eisdir : Int := 21
def enospc : Int := 28
def enotempty : Int := 39
def error : Int := 99

def mayExec : Nat := 1
def mayWrite : Nat := 2

def rootIno : Nat := 1

def sIfmt : Nat := 0o170000
def iRegular : Nat := 0o100000
def iDirectory : Nat := 0o040000
def sIsvtx : Nat := 0o1000
def isDir (mode : Nat) : Bool := mode &&& sIfmt == iDirectory

/-- An inode, with the entries of a directory up to its size. -/
structure Inode where
  mode    : Nat
  uid     : Nat
  gid     : Nat
  nlinks  : Nat
  entries : List Entry

/-- The process that makes a call. -/
structure User where
  euid  : Nat
  egid  : Nat
  umask : Nat
  root  : Nat
  pwd   : Nat

/-- The inode bitmap, the inodes, and the references processes have to them: open files,
roots and working directories. -/
structure State where
  ninodes : Nat
  alloc   : Finset Nat
  inode   : Nat → Inode
  refs    : Nat → Nat

/-- What the disk does in a call: which blocks of a directory can be read; whether there is
a block for a new directory, it can be read, and there is one for a directory that grows. -/
structure Disk where
  readable : Nat → Nat → Bool
  zone     : Bool
  fresh    : Bool
  grow     : Bool

/-- A pathname, taken apart at its slashes. -/
structure Path where
  absolute : Bool
  dirs     : List Name
  base     : Name

def State.set (s : State) (k : Nat) (x : Inode) : State := { s with inode := Function.update s.inode k x }

def State.isDir (s : State) (k : Nat) : Bool := LinkCount.isDir (s.inode k).mode

/-- An entry; none beyond the size. -/
def entryAt (es : List Entry) (i : Nat) : Entry := es.getD i ⟨0, []⟩

def State.entry (s : State) (d i : Nat) : Entry := entryAt (s.inode d).entries i

def State.setEntries (s : State) (d : Nat) (es : List Entry) : State :=
  s.set d { s.inode d with entries := es }

/-- `unsigned char`. -/
def State.setNlinks (s : State) (k n : Nat) : State := s.set k { s.inode k with nlinks := n % 256 }

/-- `iput`: the last reference to an inode without links. -/
def State.iput (s : State) (k : Nat) : State :=
  if (s.inode k).nlinks = 0 ∧ s.refs k = 0 then { s with alloc := s.alloc.erase k } else s

/-- `suser`. -/
def User.super (u : User) : Bool := u.euid == 0

def State.permission (s : State) (u : User) (k mask : Nat) : Bool :=
  let x := s.inode k
  if x.nlinks = 0 then false
  else
    let mode := if u.euid = x.uid then x.mode >>> 6 else if u.egid = x.gid then x.mode >>> 3 else x.mode
    mode &&& mask &&& 7 == mask || u.super

/-- `find_entry`: the index of the entry. -/
def State.find (s : State) (u : User) (disk : Disk) (d : Nat) (name : Name) : Option Nat :=
  let name := name.take nameLen
  if name = [] then none
  else
    let name := if name = dotdot ∧ d = u.root then dot else name
    if disk.readable d 0 then
      (List.range (s.inode d).entries.length).find? fun i =>
        disk.readable d (i / dirEntriesPerBlock) && match_ name (s.entry d i)
    else none

/-- The first slot that is free, in the blocks that can be read or that the directory does
not have yet. -/
def State.freeSlot (s : State) (disk : Disk) (d : Nat) : Option Nat :=
  let size := (s.inode d).entries.length
  let blocks := (size + dirEntriesPerBlock - 1) / dirEntriesPerBlock
  if disk.readable d 0 then
    match (List.range (size + dirEntriesPerBlock)).find? fun i =>
      (decide (blocks ≤ i / dirEntriesPerBlock) || disk.readable d (i / dirEntriesPerBlock)) &&
        (s.entry d i).inode == 0 with
    | none => none
    | some i => if i / dirEntriesPerBlock < blocks ∨ disk.grow then some i else none
  else none

/-- The entries with `e` at `i`. The size grows if it must. -/
def place (es : List Entry) (i : Nat) (e : Entry) : List Entry :=
  if i < es.length then es.set i e else es ++ List.replicate (i - es.length) ⟨0, []⟩ ++ [e]

/-- `add_entry`, and the inode number that is put into the entry. -/
def State.addEntry (s : State) (disk : Disk) (d : Nat) (name : Name) (k : Nat) : Option State :=
  (s.freeSlot disk d).map fun i =>
    s.setEntries d (place (s.inode d).entries i ⟨k, name.take nameLen⟩)

/-- `new_inode`: the first number that is free. -/
def State.freeInode (s : State) : Option Nat := (List.range' 1 s.ninodes).find? (· ∉ s.alloc)

def State.newInode (s : State) (u : User) (k : Nat) : State :=
  { s.set k ⟨0, u.euid, u.egid, 1, []⟩ with alloc := insert k s.alloc }

def State.searchable (s : State) (u : User) (d : Nat) : Bool := s.isDir d && s.permission u d mayExec

/-- The loop of `get_dir`. -/
def State.walk (s : State) (u : User) (disk : Disk) : Nat → List Name → State × Option Nat
  | d, [] => if s.searchable u d then (s, some d) else (s.iput d, none)
  | d, name :: names =>
    if s.searchable u d then
      match s.find u disk d name with
      | none => (s.iput d, none)
      | some i => (s.iput d).walk u disk (s.entry d i).inode names
    else (s.iput d, none)

/-- `dir_namei`. -/
def State.dirNamei (s : State) (u : User) (disk : Disk) (path : Path) : State × Option Nat :=
  if path.absolute then s.walk u disk u.root path.dirs
  else if path.dirs = [] ∧ path.base = [] then (s, none)
  else s.walk u disk u.pwd path.dirs

/-- `namei`. -/
def State.namei (s : State) (u : User) (disk : Disk) (path : Path) : State × Option Nat :=
  match s.dirNamei u disk path with
  | (s, none) => (s, none)
  | (s, some d) =>
    if path.base = [] then (s, some d)
    else
      match s.find u disk d path.base with
      | none => (s.iput d, none)
      | some i => (s.iput d, some (s.entry d i).inode)

/-- A process has another reference. -/
def State.hold (s : State) (k : Nat) : State := { s with refs := Function.update s.refs k (s.refs k + 1) }

/-- A process gives a reference back. -/
def State.drop (s : State) (k : Nat) : State :=
  State.iput { s with refs := Function.update s.refs k (s.refs k - 1) } k

/-- The part of `open_namei` and `sys_mknod` that makes an inode: the state, and the inode. -/
def State.create (s : State) (u : User) (disk : Disk) (d : Nat) (name : Name) (mode : Nat) :
    State × Option Nat :=
  match s.freeInode with
  | none => (s, none)
  | some k =>
    let s := s.newInode u k
    let s := s.set k { s.inode k with mode := mode }
    match s.addEntry disk d name k with
    | none => ((s.setNlinks k 0).iput k, none)
    | some s => (s, some k)

/-- `open_namei`, for an open file. -/
def State.openNamei (s : State) (u : User) (disk : Disk) (path : Path) (flag mode : Nat) : State × Int :=
  let flag := if flag &&& oTrunc ≠ 0 ∧ flag &&& oAccmode = 0 then flag ||| oWronly else flag
  match s.dirNamei u disk path with
  | (s, none) => (s, -enoent)
  | (s, some d) =>
    if path.base = [] then
      if flag &&& (oAccmode ||| oCreat ||| oTrunc) = 0 then (s.hold d, 0) else (s.iput d, -eisdir)
    else
      match s.find u disk d path.base with
      | none =>
        if flag &&& oCreat = 0 then (s.iput d, -enoent)
        else if s.permission u d mayWrite then
          match s.create u disk d path.base (iRegular ||| (mode &&& 0o777 &&& (0o777 ^^^ (u.umask &&& 0o777)))) with
          | (s, none) => (s.iput d, -enospc)
          | (s, some k) => ((s.iput d).hold k, 0)
        else (s.iput d, -eacces)
      | some i =>
        let k := (s.entry d i).inode
        let s := s.iput d
        if flag &&& oExcl ≠ 0 then (s, -eexist)
        else if (s.isDir k ∧ flag &&& oAccmode ≠ 0) ∨ ¬ s.permission u k (accMode flag) then (s.iput k, -eperm)
        else (s.hold k, 0)

/-- `sys_mknod`. -/
def State.mknod (s : State) (u : User) (disk : Disk) (path : Path) (mode : Nat) : State × Int :=
  if u.super then
    match s.dirNamei u disk path with
    | (s, none) => (s, -enoent)
    | (s, some d) =>
      if path.base = [] then (s.iput d, -enoent)
      else if s.permission u d mayWrite then
        match s.find u disk d path.base with
        | some _ => (s.iput d, -eexist)
        | none =>
          match s.create u disk d path.base mode with
          | (s, none) => (s.iput d, -enospc)
          | (s, some k) => ((s.iput d).iput k, 0)
      else (s.iput d, -eperm)
  else (s, -eperm)

/-- `sys_mkdir`. Nothing if it panics: when there is no room for the entry, the block of the
new directory is freed twice. -/
def State.mkdir (s : State) (u : User) (disk : Disk) (path : Path) (mode : Nat) : Option (State × Int) :=
  if u.super then
    match s.dirNamei u disk path with
    | (s, none) => some (s, -enoent)
    | (s, some d) =>
      if path.base = [] then some (s.iput d, -enoent)
      else if s.permission u d mayWrite then
        match s.find u disk d path.base with
        | some _ => some (s.iput d, -eexist)
        | none =>
          match s.freeInode with
          | none => some (s.iput d, -enospc)
          | some k =>
            let s := s.newInode u k
            if disk.zone then
              if disk.fresh then
                let s := s.set k { s.inode k with
                  mode := iDirectory ||| (mode &&& 0o777 &&& (0o777 ^^^ (u.umask &&& 0o777)))
                  nlinks := 2
                  entries := [⟨k, dot⟩, ⟨d, dotdot⟩] }
                match s.addEntry disk d path.base k with
                | none => none
                | some s => some (((s.setNlinks d ((s.inode d).nlinks + 1)).iput d).iput k, 0)
              else some (((s.iput d).setNlinks k 0).iput k, -error)
            else some (((s.iput d).setNlinks k 0).iput k, -enospc)
      else some (s.iput d, -eperm)
  else some (s, -eperm)

/-- `sys_link`. -/
def State.link (s : State) (u : User) (disk : Disk) (old new : Path) : State × Int :=
  match s.namei u disk old with
  | (s, none) => (s, -enoent)
  | (s, some k) =>
    if s.isDir k then (s.iput k, -eperm)
    else
      match s.dirNamei u disk new with
      | (s, none) => (s.iput k, -eacces)
      | (s, some d) =>
        if new.base = [] then ((s.iput k).iput d, -eperm)
        else if s.permission u d mayWrite then
          match s.find u disk d new.base with
          | some _ => ((s.iput d).iput k, -eexist)
          | none =>
            match s.addEntry disk d new.base k with
            | none => ((s.iput d).iput k, -enospc)
            | some s => (((s.iput d).setNlinks k ((s.inode k).nlinks + 1)).iput k, 0)
        else ((s.iput d).iput k, -eacces)

/-- `de->inode = 0`. -/
def State.clear (s : State) (d i : Nat) : State :=
  s.setEntries d ((s.inode d).entries.set i { s.entry d i with inode := 0 })

/-- `sys_unlink`. -/
def State.unlink (s : State) (u : User) (disk : Disk) (path : Path) : State × Int :=
  match s.dirNamei u disk path with
  | (s, none) => (s, -enoent)
  | (s, some d) =>
    if path.base = [] then (s.iput d, -enoent)
    else if s.permission u d mayWrite then
      match s.find u disk d path.base with
      | none => (s.iput d, -enoent)
      | some i =>
        let k := (s.entry d i).inode
        if (s.inode d).mode &&& sIsvtx ≠ 0 ∧ ¬ u.super ∧ u.euid ≠ (s.inode k).uid ∧ u.euid ≠ (s.inode d).uid then
          ((s.iput d).iput k, -eperm)
        else if s.isDir k then ((s.iput k).iput d, -eperm)
        else
          let n := if (s.inode k).nlinks = 0 then 1 else (s.inode k).nlinks
          (((s.clear d i).setNlinks k (n - 1)).iput k |>.iput d, 0)
    else (s.iput d, -eperm)

/-- `empty_dir`. -/
def State.emptyDir (s : State) (disk : Disk) (k : Nat) : Bool :=
  let es := (s.inode k).entries
  decide (2 ≤ es.length) && disk.readable k 0 && (s.entry k 0).inode == k && (s.entry k 1).inode != 0 &&
    (s.entry k 0).name == dot && (s.entry k 1).name == dotdot &&
    (List.range es.length).all fun i =>
      decide (i < 2) || disk.readable k (i / dirEntriesPerBlock) && (s.entry k i).inode == 0

/-- `sys_rmdir`. -/
def State.rmdir (s : State) (u : User) (disk : Disk) (path : Path) : State × Int :=
  if u.super then
    match s.dirNamei u disk path with
    | (s, none) => (s, -enoent)
    | (s, some d) =>
      if path.base = [] then (s.iput d, -enoent)
      else if s.permission u d mayWrite then
        match s.find u disk d path.base with
        | none => (s.iput d, -enoent)
        | some i =>
          let k := (s.entry d i).inode
          if (s.inode d).mode &&& sIsvtx ≠ 0 ∧ u.euid ≠ 0 ∧ (s.inode k).uid ≠ u.euid then
            ((s.iput d).iput k, -eperm)
          -- other references, or that of the directory itself
          else if 0 < s.refs k ∨ k = d then ((s.iput d).iput k, -eperm)
          else if ¬ s.isDir k then ((s.iput k).iput d, -enotdir)
          else if ¬ s.emptyDir disk k then ((s.iput k).iput d, -enotempty)
          else
            let s := (s.clear d i).setNlinks k 0
            (((s.setNlinks d ((s.inode d).nlinks + 255)).iput d).iput k, 0)
      else (s.iput d, -eperm)
  else (s, -eperm)

/-! ## Entries -/

theorem entryAt_place (es : List Entry) (i j : Nat) (e : Entry) :
    entryAt (place es i e) j = if j = i then e else entryAt es j := by
  unfold entryAt place
  simp only [List.getD_eq_getElem?_getD]
  by_cases hi : i < es.length
  · rw [if_pos hi, List.getElem?_set]
    by_cases hj : j = i
    · rw [if_pos hj, if_pos hj.symm, if_pos hi]
      rfl
    · rw [if_neg hj, if_neg (Ne.symm hj)]
  · rw [if_neg hi]
    by_cases hj : j = i
    · rw [if_pos hj, hj, List.getElem?_append_right (by simp; omega)]
      have hlast : i - (es ++ List.replicate (i - es.length) (⟨0, []⟩ : Entry)).length = 0 := by
        simp
        omega
      rw [hlast]
      rfl
    · rw [if_neg hj]
      by_cases hlen : j < es.length
      · rw [List.append_assoc, List.getElem?_append_left hlen]
      · rw [List.getElem?_eq_none (by omega : es.length ≤ j)]
        by_cases hji : j < i
        · rw [List.getElem?_append_left (by simp; omega), List.getElem?_append_right (by omega),
            List.getElem?_replicate]
          split <;> rfl
        · rw [List.getElem?_eq_none (by simp; omega)]

theorem lt_of_entry {es : List Entry} {i : Nat} (h : (entryAt es i).inode ≠ 0) : i < es.length := by
  by_contra hge
  unfold entryAt at h
  rw [List.getD_eq_getElem?_getD, List.getElem?_eq_none (by omega)] at h
  exact h rfl

theorem entryAt_set (es : List Entry) {i : Nat} (hi : i < es.length) (j : Nat) (e : Entry) :
    entryAt (es.set i e) j = if j = i then e else entryAt es j := by
  have h := entryAt_place es i j e
  unfold place at h
  rw [if_pos hi] at h
  exact h

/-- How many entries name the inode. -/
def cnt (k : Nat) (es : List Entry) : Nat := es.countP fun e => e.inode == k

theorem cnt_set (k : Nat) (es : List Entry) {i : Nat} (hi : i < es.length) (e : Entry) :
    cnt k (es.set i e) + (if (entryAt es i).inode = k then 1 else 0) = cnt k es + if e.inode = k then 1 else 0 := by
  have hget : entryAt es i = es[i] := by
    unfold entryAt
    rw [List.getD_eq_getElem?_getD, List.getElem?_eq_getElem hi]
    rfl
  unfold cnt
  rw [List.countP_set hi, hget]
  have hpos : es[i].inode = k → 0 < es.countP fun e => e.inode == k := by
    intro h
    exact List.countP_pos_iff.mpr ⟨es[i], List.getElem_mem hi, by simpa using h⟩
  simp only [beq_iff_eq]
  by_cases h : es[i].inode = k
  · have := hpos h
    rw [if_pos h]
    omega
  · rw [if_neg h]
    omega

theorem cnt_place {k : Nat} (hk : k ≠ 0) {es : List Entry} {i : Nat} (hfree : (entryAt es i).inode = 0) (e : Entry) :
    cnt k (place es i e) = cnt k es + if e.inode = k then 1 else 0 := by
  unfold place
  by_cases hi : i < es.length
  · have h := cnt_set k es hi e
    rw [hfree, if_neg (Ne.symm hk)] at h
    rw [if_pos hi]
    exact h
  · rw [if_neg hi]
    unfold cnt
    rw [List.countP_append, List.countP_append, List.countP_replicate, List.countP_singleton]
    simp [Ne.symm hk]

theorem cnt_pos {k : Nat} {es : List Entry} {i : Nat} (hk : k ≠ 0) (h : (entryAt es i).inode = k) : 0 < cnt k es := by
  have hi : i < es.length := lt_of_entry (by rw [h]; exact hk)
  have hset := cnt_set k es hi ⟨0, []⟩
  rw [if_pos h, if_neg (Ne.symm hk)] at hset
  omega

theorem cnt_zero {k : Nat} {es : List Entry} (h : ∀ i, (entryAt es i).inode ≠ k) : cnt k es = 0 := by
  unfold cnt
  rw [List.countP_eq_zero]
  intro e he
  obtain ⟨i, hi, rfl⟩ := List.mem_iff_getElem.mp he
  have hne := h i
  unfold entryAt at hne
  rw [List.getD_eq_getElem?_getD, List.getElem?_eq_getElem hi] at hne
  simpa using hne

/-! ## Links -/

/-- How many entries of directories name the inode. -/
def State.links (s : State) (k : Nat) : Nat := ∑ d ∈ s.alloc, cnt k (s.inode d).entries

theorem sum_change {A : Finset Nat} {f g : Nat → Nat} {d : Nat} (hd : d ∈ A)
    (h : ∀ x, x ∈ A → x ≠ d → f x = g x) : ∑ x ∈ A, f x + g d = ∑ x ∈ A, g x + f d := by
  rw [← Finset.add_sum_erase A f hd, ← Finset.add_sum_erase A g hd]
  have hrest : ∑ x ∈ A.erase d, f x = ∑ x ∈ A.erase d, g x :=
    Finset.sum_congr rfl fun x hx => h x (Finset.mem_of_mem_erase hx) (Finset.ne_of_mem_erase hx)
  omega

theorem links_pos {s : State} {d i k : Nat} (hd : d ∈ s.alloc) (hk : k ≠ 0) (h : (s.entry d i).inode = k) :
    0 < s.links k := by
  have hsum := Finset.add_sum_erase s.alloc (fun x => cnt k (s.inode x).entries) hd
  have hpos : 0 < cnt k (s.inode d).entries := cnt_pos hk h
  unfold State.links
  omega

@[simp] theorem set_inode (s : State) (k j : Nat) (x : Inode) :
    (s.set k x).inode j = if j = k then x else s.inode j :=
  Function.update_apply ..

/-- A consistent file system. -/
structure Good (s : State) : Prop where
  root  : rootIno ∈ s.alloc ∧ s.isDir rootIno = true ∧ (s.entry rootIno 1).inode = rootIno
  zero  : 0 ∉ s.alloc
  names : ∀ d, d ∈ s.alloc → ∀ i, (s.entry d i).inode ≠ 0 → (s.entry d i).inode ∈ s.alloc
  files : ∀ k, k ∈ s.alloc → s.isDir k = false → (s.inode k).entries = []
  byte  : ∀ k, k ∈ s.alloc → (s.inode k).nlinks < 256
  exact : ∀ k, k ∈ s.alloc → (s.inode k).nlinks = s.links k
  held  : ∀ k, k ∈ s.alloc → (s.inode k).nlinks = 0 → s.refs k ≠ 0
  refs  : ∀ k, s.refs k ≠ 0 → k ∈ s.alloc
  self  : ∀ d, d ∈ s.alloc → s.isDir d = true → (s.entry d 0).inode = d ∧ (s.entry d 1).inode ≠ 0
  /-- A directory is entered in the one that its `..` names, and the root is not. -/
  below : ∀ d, d ∈ s.alloc → ∀ i, 2 ≤ i → ∀ k, k ≠ 0 → (s.entry d i).inode = k → s.isDir k = true →
    k ≠ rootIno ∧ (s.entry k 1).inode = d
  once  : ∀ d, d ∈ s.alloc → ∀ i j, 2 ≤ i → 2 ≤ j → ∀ k, k ≠ 0 → (s.entry d i).inode = k →
    (s.entry d j).inode = k → s.isDir k = true → i = j
  up    : ∀ k, k ∈ s.alloc → s.isDir k = true → k ≠ rootIno →
    ∃ i, 2 ≤ i ∧ (s.entry (s.entry k 1).inode i).inode = k

variable {s s' : State}

/-- Only what is allocated matters. -/
theorem Good.congr (h : Good s) (halloc : s'.alloc = s.alloc) (hinode : ∀ k, k ∈ s.alloc → s'.inode k = s.inode k)
    (hrefs : s'.refs = s.refs) : Good s' := by
  have hentry : ∀ d i, d ∈ s.alloc → s'.entry d i = s.entry d i := fun d i hd => by
    unfold State.entry
    rw [hinode d hd]
  have hdir : ∀ k, k ∈ s.alloc → s'.isDir k = s.isDir k := fun k hk => by
    unfold State.isDir
    rw [hinode k hk]
  have hlinks : ∀ k, s'.links k = s.links k := fun k => by
    unfold State.links
    rw [halloc]
    exact Finset.sum_congr rfl fun d hd => by rw [hinode d hd]
  have hroot := h.root.1
  refine ⟨?_, ?_, ?_, ?_, ?_, ?_, ?_, ?_, ?_, ?_, ?_, ?_⟩
  · rw [halloc, hdir _ hroot, hentry _ _ hroot]
    exact h.root
  · rw [halloc]
    exact h.zero
  · intro d hd i
    rw [halloc] at hd ⊢
    rw [hentry d i hd]
    exact h.names d hd i
  · intro k hk
    rw [halloc] at hk
    rw [hdir k hk, hinode k hk]
    exact h.files k hk
  · intro k hk
    rw [halloc] at hk
    rw [hinode k hk]
    exact h.byte k hk
  · intro k hk
    rw [halloc] at hk
    rw [hinode k hk, hlinks]
    exact h.exact k hk
  · intro k hk
    rw [halloc] at hk
    rw [hinode k hk, hrefs]
    exact h.held k hk
  · intro k
    rw [halloc, hrefs]
    exact h.refs k
  · intro d hd
    rw [halloc] at hd
    rw [hdir d hd, hentry d 0 hd, hentry d 1 hd]
    exact h.self d hd
  · intro d hd i hi k hk hik
    rw [halloc] at hd
    rw [hentry d i hd] at hik
    have hmem : k ∈ s.alloc := hik ▸ h.names d hd i (hik ▸ hk)
    rw [hdir k hmem, hentry k 1 hmem]
    exact h.below d hd i hi k hk hik
  · intro d hd i j hi hj k hk hik hjk
    rw [halloc] at hd
    rw [hentry d i hd] at hik
    rw [hentry d j hd] at hjk
    have hmem : k ∈ s.alloc := hik ▸ h.names d hd i (hik ▸ hk)
    rw [hdir k hmem]
    exact h.once d hd i j hi hj k hk hik hjk
  · intro k hk
    rw [halloc] at hk
    rw [hdir k hk]
    intro hkdir hne
    obtain ⟨i, hi, hup⟩ := h.up k hk hkdir hne
    refine ⟨i, hi, ?_⟩
    rw [hentry k 1 hk, hentry _ i (h.names k hk 1 (h.self k hk hkdir).2)]
    exact hup

/-- No call frees an inode that has links or references. -/
theorem Good.iput (h : Good s) {k : Nat} (hk : k ∈ s.alloc) : s.iput k = s := by
  unfold State.iput
  rw [if_neg]
  rintro ⟨hlinks, hrefs⟩
  exact h.held k hk hlinks hrefs

theorem Good.hold (h : Good s) {k : Nat} (hk : k ∈ s.alloc) : Good (s.hold k) := by
  have hrefs : ∀ j, (s.hold k).refs j = if j = k then s.refs k + 1 else s.refs j :=
    fun j => Function.update_apply ..
  refine ⟨h.root, h.zero, h.names, h.files, h.byte, h.exact, fun j hj hzero => ?_, fun j hj => ?_, h.self, h.below,
    h.once, h.up⟩
  · rw [hrefs]
    split_ifs
    · omega
    · exact h.held j hj hzero
  · rw [hrefs] at hj
    split_ifs at hj with hjk
    · exact hjk ▸ hk
    · exact h.refs j hj

theorem Good.two_le (h : Good s) {d i : Nat} (hd : d ∈ s.alloc) (hdir : s.isDir d = true)
    (hfree : (s.entry d i).inode = 0) : 2 ≤ i := by
  obtain ⟨hself, hparent⟩ := h.self d hd hdir
  by_contra hlt
  have hi : i = 0 ∨ i = 1 := by omega
  rcases hi with rfl | rfl
  · rw [hself] at hfree
    exact h.zero (hfree ▸ hd)
  · exact hparent hfree

theorem Good.links_free (h : Good s) {k : Nat} (hk : k ∉ s.alloc) (hk₀ : k ≠ 0) : s.links k = 0 := by
  unfold State.links
  refine Finset.sum_eq_zero fun d hd => cnt_zero fun i heq => hk ?_
  have hmem := h.names d hd i
  unfold State.entry at hmem
  rw [heq] at hmem
  exact hmem hk₀

/-- The entries of a new inode: none, or those of a directory. -/
structure Made (k d : Nat) (x : Inode) (n n' : Nat) : Prop where
  kind : (x.entries = [] ∧ isDir x.mode = false ∧ x.nlinks = 1 ∧ n' = n) ∨
    (x.entries = [⟨k, dot⟩, ⟨d, dotdot⟩] ∧ isDir x.mode = true ∧ x.nlinks = 2 ∧ n' = n + 1 ∧ n ≠ 255)

/-- A new inode is entered in a directory. -/
theorem Good.made (h : Good s) {d i k n' : Nat} {e : Entry} {x : Inode} (hd : d ∈ s.alloc) (hdir : s.isDir d = true)
    (hfree : (s.entry d i).inode = 0) (hk : k ∉ s.alloc) (hk₀ : k ≠ 0) (he : e.inode = k)
    (hx : Made k d x (s.inode d).nlinks n') (halloc : s'.alloc = insert k s.alloc)
    (hinode : ∀ j, s'.inode j = if j = k then x else if j = d then
      { s.inode d with nlinks := n', entries := place (s.inode d).entries i e } else s.inode j)
    (hrefs : s'.refs = s.refs) : Good s' := by
  have hi := h.two_le hd hdir hfree
  have hdk : d ≠ k := fun heq => hk (heq ▸ hd)
  have hd₀ : d ≠ 0 := fun heq => h.zero (heq ▸ hd)
  have hne : ∀ a, a ∈ s.alloc → a ≠ k := fun a ha heq => hk (heq ▸ ha)
  have hentry : ∀ a j, a ∈ s.alloc → s'.entry a j = if a = d ∧ j = i then e else s.entry a j := by
    intro a j ha
    unfold State.entry
    rw [hinode a, if_neg (hne a ha)]
    by_cases had : a = d
    · rw [if_pos had, had]
      dsimp only
      rw [entryAt_place]
      simp
    · rw [if_neg had, if_neg fun hand => had hand.1]
  have hentry₁ : ∀ a, a ∈ s.alloc → s'.entry a 1 = s.entry a 1 := fun a ha => by
    rw [hentry a 1 ha, if_neg fun hand => by omega]
  have hnew : ∀ j, 2 ≤ j → (s'.entry k j).inode = 0 := by
    intro j hj
    unfold State.entry
    rw [hinode k, if_pos rfl]
    rcases hx.kind with ⟨hes, -⟩ | ⟨hes, -⟩
    · rw [hes]
      rfl
    · rw [hes]
      unfold entryAt
      rw [List.getD_eq_getElem?_getD, List.getElem?_eq_none (by simpa using hj)]
      rfl
  have hisDir : ∀ a, a ∈ s.alloc → s'.isDir a = s.isDir a := by
    intro a ha
    unfold State.isDir
    rw [hinode a, if_neg (hne a ha)]
    split_ifs with had
    · rw [had]
    · rfl
  -- an entry of the new state is the new one, or an old one
  have hold : ∀ a j, 2 ≤ j → (s'.entry a j).inode ≠ 0 → a ∈ s'.alloc →
      (a = d ∧ j = i ∧ (s'.entry a j).inode = k) ∨ (a ∈ s.alloc ∧ s'.entry a j = s.entry a j) := by
    intro a j hj hnz ha
    rw [halloc, Finset.mem_insert] at ha
    rcases ha with rfl | ha
    · exact absurd (hnew j hj) hnz
    · by_cases hand : a = d ∧ j = i
      · refine Or.inl ⟨hand.1, hand.2, ?_⟩
        rw [hentry a j ha, if_pos hand, he]
      · refine Or.inr ⟨ha, ?_⟩
        rw [hentry a j ha, if_neg hand]
  have hlinks : ∀ j, j ≠ 0 → s'.links j = s.links j + cnt j x.entries + if j = k then 1 else 0 := by
    intro j hj
    unfold State.links
    rw [halloc, Finset.sum_insert hk, hinode k, if_pos rfl]
    have hsum := sum_change (f := fun a => cnt j (s'.inode a).entries) (g := fun a => cnt j (s.inode a).entries) hd
      (fun a ha hne' => by rw [hinode a, if_neg (hne a ha), if_neg hne'])
    rw [hinode d, if_neg hdk, if_pos rfl] at hsum
    dsimp only at hsum
    rw [cnt_place hj hfree, he] at hsum
    simp only [eq_comm (a := k)] at hsum
    omega
  have hdirk : s'.isDir k = isDir x.mode := by
    unfold State.isDir
    rw [hinode k, if_pos rfl]
  have hnames₁ : ∀ a, a ∈ s.alloc → s.isDir a = true → (s.entry a 1).inode ∈ s.alloc := fun a ha hadir =>
    h.names a ha 1 (h.self a ha hadir).2
  refine ⟨?_, ?_, fun a ha j hnz => ?_, fun a ha hfile => ?_, fun a ha => ?_, fun a ha => ?_, fun a ha hzero => ?_, fun a ha => ?_,
    fun a ha hadir => ?_, fun a ha j hj c hc hjc hcdir => ?_, fun a ha j j' hj hj' c hc hjc hjc' hcdir => ?_,
    fun a ha hadir hroot => ?_⟩
  · rw [halloc, hisDir _ h.root.1, hentry₁ _ h.root.1]
    exact ⟨Finset.mem_insert_of_mem h.root.1, h.root.2⟩
  · rw [halloc, Finset.mem_insert, not_or]
    exact ⟨Ne.symm hk₀, h.zero⟩
  · rw [halloc, Finset.mem_insert] at ha ⊢
    rcases ha with rfl | ha
    · unfold State.entry at hnz ⊢
      rw [hinode a, if_pos rfl] at hnz ⊢
      rcases hx.kind with ⟨hes, -⟩ | ⟨hes, -⟩
      · rw [hes] at hnz
        exact absurd rfl hnz
      · rw [hes] at hnz ⊢
        match j, hnz with
        | 0, _ => exact Or.inl rfl
        | 1, _ => exact Or.inr hd
        | j + 2, hnz => exact absurd rfl hnz
    · rw [hentry a j ha] at hnz ⊢
      split_ifs at hnz ⊢
      · exact Or.inl he
      · exact Or.inr (h.names a ha j hnz)
  · rw [halloc, Finset.mem_insert] at ha
    rcases ha with rfl | ha
    · rw [hdirk] at hfile
      rw [hinode a, if_pos rfl]
      rcases hx.kind with ⟨hes, -⟩ | ⟨-, hxdir, -⟩
      · exact hes
      · rw [hfile] at hxdir
        cases hxdir
    · rw [hisDir a ha] at hfile
      have had : a ≠ d := by
        rintro rfl
        rw [hdir] at hfile
        cases hfile
      rw [hinode a, if_neg (hne a ha), if_neg had]
      exact h.files a ha hfile
  · rw [halloc, Finset.mem_insert] at ha
    rcases ha with rfl | ha
    · rw [hinode a, if_pos rfl]
      rcases hx.kind with ⟨-, -, hn, -⟩ | ⟨-, -, hn, -⟩
      · omega
      · omega
    · have hbyte := h.byte a ha
      rw [hinode a, if_neg (hne a ha)]
      split_ifs with had
      · rw [had] at hbyte
        dsimp only
        rcases hx.kind with ⟨-, -, -, hn⟩ | ⟨-, -, -, hn, hfits⟩
        · omega
        · omega
      · exact hbyte
  · rw [halloc, Finset.mem_insert] at ha
    have hdots : ∀ c, cnt c [(⟨k, dot⟩ : Entry), ⟨d, dotdot⟩] = (if k = c then 1 else 0) + if d = c then 1 else 0 := by
      intro c
      unfold cnt
      rw [List.countP_cons, List.countP_singleton]
      simp only [beq_iff_eq]
      omega
    rcases ha with rfl | ha
    · rw [hlinks a hk₀, h.links_free hk hk₀, hinode a, if_pos rfl, if_pos rfl]
      rcases hx.kind with ⟨hes, -, hn, -⟩ | ⟨hes, -, hn, -⟩
      · rw [hes, hn]
        rfl
      · rw [hes, hn, hdots, if_pos rfl, if_neg hdk]
    · have ha₀ : a ≠ 0 := fun heq => h.zero (heq ▸ ha)
      rw [hlinks a ha₀, if_neg (hne a ha), hinode a, if_neg (hne a ha)]
      have hexact := h.exact a ha
      rcases hx.kind with ⟨hes, -, -, hn⟩ | ⟨hes, -, -, hn, -⟩
      · rw [hes]
        split_ifs with had
        · rw [had] at hexact ⊢
          rw [hn]
          exact hexact
        · exact hexact
      · rw [hes, hdots, if_neg (Ne.symm (hne a ha))]
        split_ifs with had had' had'
        · rw [had] at hexact ⊢
          dsimp only
          omega
        · exact absurd had.symm had'
        · exact absurd had'.symm had
        · omega
  · rw [halloc, Finset.mem_insert] at ha
    rw [hrefs]
    rcases ha with rfl | ha
    · rw [hinode a, if_pos rfl] at hzero
      rcases hx.kind with ⟨-, -, hn, -⟩ | ⟨-, -, hn, -⟩
      · omega
      · omega
    · rw [hinode a, if_neg (hne a ha)] at hzero
      split_ifs at hzero with had
      · rw [had]
        refine h.held d hd ?_
        dsimp only at hzero
        rcases hx.kind with ⟨-, -, -, hn⟩ | ⟨-, -, -, hn, -⟩
        · omega
        · omega
      · exact h.held a ha hzero
  · rw [halloc]
    rw [hrefs] at ha
    exact Finset.mem_insert_of_mem (h.refs a ha)
  · rw [halloc, Finset.mem_insert] at ha
    rcases ha with rfl | ha
    · rw [hdirk] at hadir
      unfold State.entry
      rw [hinode a, if_pos rfl]
      rcases hx.kind with ⟨-, hxdir, -⟩ | ⟨hes, -⟩
      · rw [hadir] at hxdir
        cases hxdir
      · rw [hes]
        exact ⟨rfl, hd₀⟩
    · rw [hisDir a ha] at hadir
      rw [hentry₁ a ha, hentry a 0 ha, if_neg fun hand => by omega]
      exact h.self a ha hadir
  · rcases hold a j hj (hjc ▸ hc) ha with ⟨rfl, rfl, hkc⟩ | ⟨ha, heq⟩
    · obtain rfl : k = c := hkc.symm.trans hjc
      refine ⟨fun heq => hk (heq ▸ h.root.1), ?_⟩
      rw [hdirk] at hcdir
      unfold State.entry
      rw [hinode k, if_pos rfl]
      rcases hx.kind with ⟨-, hxdir, -⟩ | ⟨hes, -⟩
      · rw [hcdir] at hxdir
        cases hxdir
      · rw [hes]
        rfl
    · rw [heq] at hjc
      have hmem : c ∈ s.alloc := hjc ▸ h.names a ha j (hjc ▸ hc)
      rw [hisDir c hmem] at hcdir
      rw [hentry₁ c hmem]
      exact h.below a ha j hj c hc hjc hcdir
  · rcases hold a j hj (hjc ▸ hc) ha with ⟨rfl, rfl, hkc⟩ | ⟨ha₁, heq⟩
    · obtain rfl : k = c := hkc.symm.trans hjc
      rcases hold a j' hj' (hjc' ▸ hc) ha with ⟨-, rfl, -⟩ | ⟨-, heq'⟩
      · rfl
      · rw [heq'] at hjc'
        exact absurd (hjc' ▸ h.names a hd j' (hjc' ▸ hc)) hk
    · rw [heq] at hjc
      have hmem : c ∈ s.alloc := hjc ▸ h.names a ha₁ j (hjc ▸ hc)
      rcases hold a j' hj' (hjc' ▸ hc) ha with ⟨-, -, hkc⟩ | ⟨-, heq'⟩
      · exact absurd (hkc.symm.trans hjc' ▸ hmem) hk
      · rw [heq'] at hjc'
        rw [hisDir c hmem] at hcdir
        exact h.once a ha₁ j j' hj hj' c hc hjc hjc' hcdir
  · rw [halloc, Finset.mem_insert] at ha
    rcases ha with rfl | ha
    · rw [hdirk] at hadir
      have hparent : (s'.entry a 1).inode = d := by
        unfold State.entry
        rw [hinode a, if_pos rfl]
        rcases hx.kind with ⟨-, hxdir, -⟩ | ⟨hes, -⟩
        · rw [hadir] at hxdir
          cases hxdir
        · rw [hes]
          rfl
      refine ⟨i, hi, ?_⟩
      rw [hparent, hentry d i hd, if_pos ⟨rfl, rfl⟩, he]
    · rw [hisDir a ha] at hadir
      obtain ⟨j, hj, hup⟩ := h.up a ha hadir hroot
      refine ⟨j, hj, ?_⟩
      rw [hentry₁ a ha, hentry _ j (hnames₁ a ha hadir), if_neg]
      · exact hup
      · rintro ⟨hpd, rfl⟩
        rw [hpd, hfree] at hup
        exact h.zero (hup ▸ ha)

/-- An inode that is no directory has another name. -/
theorem Good.linked (h : Good s) {d i k : Nat} {e : Entry} (hd : d ∈ s.alloc) (hdir : s.isDir d = true)
    (hfree : (s.entry d i).inode = 0) (hk : k ∈ s.alloc) (hfile : s.isDir k = false) (he : e.inode = k)
    (hfits : (s.inode k).nlinks ≠ 255)
    (halloc : s'.alloc = s.alloc)
    (hinode : ∀ j, s'.inode j = if j = k then { s.inode k with nlinks := (s.inode k).nlinks + 1 } else
      if j = d then { s.inode d with entries := place (s.inode d).entries i e } else s.inode j)
    (hrefs : s'.refs = s.refs) : Good s' := by
  have hi := h.two_le hd hdir hfree
  have hk₀ : k ≠ 0 := fun heq => h.zero (heq ▸ hk)
  have hdk : d ≠ k := by
    rintro rfl
    rw [hfile] at hdir
    cases hdir
  have hentry : ∀ a j, s'.entry a j = if a = d ∧ j = i then e else s.entry a j := by
    intro a j
    unfold State.entry
    rw [hinode a]
    by_cases hak : a = k
    · rw [if_pos hak, if_neg fun hand => hdk (hand.1.symm.trans hak), hak]
    · rw [if_neg hak]
      by_cases had : a = d
      · rw [if_pos had, had]
        dsimp only
        rw [entryAt_place]
        simp
      · rw [if_neg had, if_neg fun hand => had hand.1]
  have hentry₁ : ∀ a, s'.entry a 1 = s.entry a 1 := fun a => by
    rw [hentry a 1, if_neg fun hand => by omega]
  have hisDir : ∀ a, s'.isDir a = s.isDir a := by
    intro a
    unfold State.isDir
    rw [hinode a]
    split_ifs with hak had
    · rw [hak]
    · rw [had]
    · rfl
  have hlinks : ∀ j, j ≠ 0 → s'.links j = s.links j + if j = k then 1 else 0 := by
    intro j hj
    unfold State.links
    rw [halloc]
    have hsum := sum_change (f := fun a => cnt j (s'.inode a).entries) (g := fun a => cnt j (s.inode a).entries) hd
      (fun a _ hne => by
        rw [hinode a]
        split_ifs with hak
        · rw [hak]
        · rfl)
    rw [hinode d, if_neg hdk, if_pos rfl] at hsum
    dsimp only at hsum
    rw [cnt_place hj hfree, he] at hsum
    simp only [eq_comm (a := k)] at hsum
    omega
  -- a name of a directory is an old one
  have hold : ∀ a j c, (s'.entry a j).inode = c → s'.isDir c = true → (s.entry a j).inode = c := by
    intro a j c hc hcdir
    rw [hentry a j] at hc
    split_ifs at hc
    · rw [hisDir, ← hc, he, hfile] at hcdir
      cases hcdir
    · exact hc
  refine ⟨?_, ?_, fun a ha j hnz => ?_, fun a ha hfa => ?_, fun a ha => ?_, fun a ha => ?_, fun a ha hzero => ?_, fun a ha => ?_,
    fun a ha hadir => ?_, fun a ha j hj c hc hjc hcdir => ?_, fun a ha j j' hj hj' c hc hjc hjc' hcdir => ?_,
    fun a ha hadir hroot => ?_⟩
  · rw [halloc, hisDir, hentry₁]
    exact h.root
  · rw [halloc]
    exact h.zero
  · rw [halloc] at ha ⊢
    rw [hentry a j] at hnz ⊢
    split_ifs at hnz ⊢
    · rw [he]
      exact hk
    · exact h.names a ha j hnz
  · rw [halloc] at ha
    rw [hisDir] at hfa
    rw [hinode a]
    split_ifs with hak had
    · exact h.files k hk hfile
    · rw [had, hdir] at hfa
      cases hfa
    · exact h.files a ha hfa
  · rw [halloc] at ha
    rw [hinode a]
    split_ifs with hak had
    · have hbyte := h.byte k hk
      dsimp only
      omega
    · exact h.byte d hd
    · exact h.byte a ha
  · rw [halloc] at ha
    rw [hlinks a fun heq => h.zero (heq ▸ ha), hinode a]
    split_ifs with hak had
    · rw [hak, ← h.exact k hk]
    · rw [had]
      exact h.exact d hd
    · exact h.exact a ha
  · rw [halloc] at ha
    rw [hrefs]
    rw [hinode a] at hzero
    split_ifs at hzero with hak had
    · rw [had]
      exact h.held d hd hzero
    · exact h.held a ha hzero
  · rw [halloc]
    rw [hrefs] at ha
    exact h.refs a ha
  · rw [halloc] at ha
    rw [hisDir] at hadir
    rw [hentry₁, hentry a 0, if_neg fun hand => by omega]
    exact h.self a ha hadir
  · rw [halloc] at ha
    have hjc' := hold a j c hjc hcdir
    rw [hisDir] at hcdir
    rw [hentry₁]
    exact h.below a ha j hj c hc hjc' hcdir
  · rw [halloc] at ha
    have hcdir' := hcdir
    rw [hisDir] at hcdir'
    exact h.once a ha j j' hj hj' c hc (hold a j c hjc hcdir) (hold a j' c hjc' hcdir) hcdir'
  · rw [halloc] at ha
    rw [hisDir] at hadir
    obtain ⟨j, hj, hup⟩ := h.up a ha hadir hroot
    refine ⟨j, hj, ?_⟩
    rw [hentry₁, hentry, if_neg]
    · exact hup
    · rintro ⟨hpd, rfl⟩
      rw [hpd, hfree] at hup
      exact h.zero (hup ▸ ha)

/-- What is left when an entry is cleared, and its inode perhaps freed. -/
structure Cleared (s s' : State) (d i k : Nat) (gone : Prop) : Prop where
  alloc : ∀ a, a ∈ s'.alloc ↔ a ∈ s.alloc ∧ ¬ (gone ∧ a = k)
  entry : ∀ a, a ∈ s.alloc → ∀ j, (s'.entry a j).inode = if a = d ∧ j = i then 0 else (s.entry a j).inode
  isDir : ∀ a, s'.isDir a = s.isDir a
  files : ∀ a, (s.inode a).entries = [] → (s'.inode a).entries = []
  dir   : s.isDir k = true → gone
  empty : gone → ∀ j, 2 ≤ j → (s.entry k j).inode = 0
  none  : gone → ∀ a, a ∈ s.alloc → a ≠ k → ∀ j, ¬ (a = d ∧ j = i) → (s.entry a j).inode ≠ k

theorem Cleared.old {d i k : Nat} {gone : Prop} (hc : Cleared s s' d i k gone) {a : Nat} (ha : a ∈ s'.alloc) :
    a ∈ s.alloc :=
  ((hc.alloc a).mp ha).1

theorem Good.cleared (h : Good s) {d i k : Nat} {gone : Prop} (hd : d ∈ s.alloc) (hi : 2 ≤ i)
    (hk : (s.entry d i).inode = k) (hk₀ : k ≠ 0) (hc : Cleared s s' d i k gone)
    (hbyte : ∀ a, a ∈ s'.alloc → (s'.inode a).nlinks < 256)
    (hexact : ∀ a, a ∈ s'.alloc → (s'.inode a).nlinks = s'.links a)
    (hheld : ∀ a, a ∈ s'.alloc → (s'.inode a).nlinks = 0 → s'.refs a ≠ 0)
    (hrefs : ∀ a, s'.refs a ≠ 0 → a ∈ s'.alloc) : Good s' := by
  have hentry₁ : ∀ a, a ∈ s.alloc → (s'.entry a 1).inode = (s.entry a 1).inode := fun a ha => by
    rw [hc.entry a ha 1, if_neg fun hand => by omega]
  have hmem : ∀ a, a ∈ s'.alloc → a ∈ s.alloc := fun a ha => hc.old ha
  have hkroot : k ≠ rootIno := by
    intro hroot
    have hkdir : s.isDir k = true := hroot ▸ h.root.2.1
    exact (h.below d hd i hi k hk₀ hk hkdir).1 hroot
  have hroot' : rootIno ∈ s'.alloc := (hc.alloc rootIno).mpr ⟨h.root.1, fun hand => hkroot hand.2.symm⟩
  have hold : ∀ a j c, a ∈ s.alloc → c ≠ 0 → (s'.entry a j).inode = c → (s.entry a j).inode = c := by
    intro a j c ha hne hjc
    rw [hc.entry a ha j] at hjc
    split_ifs at hjc
    · exact absurd hjc.symm hne
    · exact hjc
  refine ⟨⟨hroot', ?_, ?_⟩, fun h₀ => h.zero (hmem 0 h₀), fun a ha j hnz => ?_, fun a ha hfile => ?_, hbyte, hexact, hheld,
    hrefs, fun a ha hadir => ?_, fun a ha j hj c hc₀ hjc hcdir => ?_,
    fun a ha j j' hj hj' c hc₀ hjc hjc' hcdir => ?_, fun a ha hadir hne => ?_⟩
  · rw [hc.isDir]
    exact h.root.2.1
  · rw [hentry₁ _ h.root.1]
    exact h.root.2.2
  · obtain ⟨ha₁, hak⟩ := (hc.alloc a).mp ha
    have hval := hold a j _ ha₁ hnz rfl
    refine (hc.alloc _).mpr ⟨hval ▸ h.names a ha₁ j (hval ▸ hnz), ?_⟩
    rintro ⟨hgone, heq⟩
    refine hc.none hgone a ha₁ (fun hak' => hak ⟨hgone, hak'⟩) j ?_ (hval.trans heq)
    rintro ⟨rfl, rfl⟩
    rw [hc.entry a ha₁ j, if_pos ⟨rfl, rfl⟩] at hnz
    exact hnz rfl
  · rw [hc.isDir] at hfile
    exact hc.files a (h.files a (hmem a ha) hfile)
  · have ha₁ := hmem a ha
    rw [hc.isDir] at hadir
    rw [hentry₁ a ha₁, hc.entry a ha₁ 0, if_neg fun hand => by omega]
    exact h.self a ha₁ hadir
  · have ha₁ := hmem a ha
    have hjc' := hold a j c ha₁ hc₀ hjc
    have hcmem : c ∈ s.alloc := hjc' ▸ h.names a ha₁ j (hjc' ▸ hc₀)
    rw [hc.isDir] at hcdir
    rw [hentry₁ c hcmem]
    exact h.below a ha₁ j hj c hc₀ hjc' hcdir
  · have ha₁ := hmem a ha
    rw [hc.isDir] at hcdir
    exact h.once a ha₁ j j' hj hj' c hc₀ (hold a j c ha₁ hc₀ hjc) (hold a j' c ha₁ hc₀ hjc') hcdir
  · obtain ⟨ha₁, hak⟩ := (hc.alloc a).mp ha
    rw [hc.isDir] at hadir
    obtain ⟨j, hj, hup⟩ := h.up a ha₁ hadir hne
    have hparent := h.names a ha₁ 1 (h.self a ha₁ hadir).2
    refine ⟨j, hj, ?_⟩
    rw [hentry₁ a ha₁, hc.entry _ hparent j, if_neg]
    · exact hup
    · rintro ⟨hpd, rfl⟩
      rw [hpd, hk] at hup
      exact hak ⟨hc.dir (hup ▸ hadir), hup.symm⟩

theorem entry_clear {d i : Nat} (hlen : i < (s.inode d).entries.length) (a j : Nat) :
    ((s.clear d i).entry a j).inode = if a = d ∧ j = i then 0 else (s.entry a j).inode := by
  unfold State.clear State.setEntries State.entry
  rw [set_inode]
  by_cases had : a = d
  · rw [if_pos had, had]
    dsimp only
    rw [entryAt_set _ hlen]
    by_cases hj : j = i
    · rw [if_pos hj, if_pos ⟨rfl, hj⟩]
    · rw [if_neg hj, if_neg fun hand => hj hand.2]
  · rw [if_neg had, if_neg fun hand => had hand.1]

theorem links_clear {d i a : Nat} (hd : d ∈ s.alloc) (hk : (s.entry d i).inode ≠ 0) (ha : a ≠ 0) :
    (s.clear d i).links a + (if a = (s.entry d i).inode then 1 else 0) = s.links a := by
  have hinode : ∀ x, ((s.clear d i).inode x).entries = if x = d then
      (s.inode d).entries.set i { s.entry d i with inode := 0 } else (s.inode x).entries := by
    intro x
    unfold State.clear State.setEntries
    rw [set_inode]
    split_ifs <;> rfl
  have hsum := sum_change (f := fun x => cnt a ((s.clear d i).inode x).entries)
    (g := fun x => cnt a (s.inode x).entries) hd (fun x _ hne => by rw [hinode x, if_neg hne])
  rw [hinode d, if_pos rfl] at hsum
  dsimp only at hsum
  have hset := cnt_set a (s.inode d).entries (lt_of_entry hk) { s.entry d i with inode := 0 }
  have hval : (entryAt (s.inode d).entries i).inode = (s.entry d i).inode := rfl
  rw [hval] at hset
  dsimp only at hset
  rw [if_neg (Ne.symm ha)] at hset
  simp only [eq_comm (b := a)] at hset
  have hleft : (s.clear d i).links a = ∑ x ∈ s.alloc, cnt a ((s.clear d i).inode x).entries := rfl
  have hright : s.links a = ∑ x ∈ s.alloc, cnt a (s.inode x).entries := rfl
  omega

/-- An entry is cleared, and the inode that it named is freed, or has a link less. -/
theorem Good.erased (h : Good s) {d i k n m c : Nat} {g : Prop} [Decidable g] (hd : d ∈ s.alloc)
    (hdir : s.isDir d = true) (hi : 2 ≤ i) (hk : (s.entry d i).inode = k) (hk₀ : k ≠ 0) (hdk : d ≠ k)
    (halloc : s'.alloc = if g then s.alloc.erase k else s.alloc)
    (hinode : ∀ j, s'.inode j = if j = k then { s.inode k with nlinks := n } else if j = d then
      { s.inode d with nlinks := m, entries := (s.inode d).entries.set i { s.entry d i with inode := 0 } } else s.inode j)
    (hrefs : s'.refs = s.refs) (hkdir : s.isDir k = true → g)
    (hempty : g → ∀ j, 2 ≤ j → (s.entry k j).inode = 0)
    (hnone : g → ∀ a, a ∈ s.alloc → a ≠ k → ∀ j, ¬ (a = d ∧ j = i) → (s.entry a j).inode ≠ k)
    (hcnt : ∀ a, a ≠ 0 → a ≠ k → cnt a (s.inode k).entries = if a = d then c else 0)
    (hnd : m + c = (s.inode d).nlinks) (hgone : g → s.refs k = 0)
    (hkept : ¬ g → n + 1 = (s.inode k).nlinks ∧ (n = 0 → s.refs k ≠ 0)) : Good s' := by
  have hlen : i < (s.inode d).entries.length := lt_of_entry (hk.trans_ne hk₀)
  have hkmem : k ∈ s.alloc := hk ▸ h.names d hd i (hk.trans_ne hk₀)
  have hd₀ : d ≠ 0 := fun heq => h.zero (heq ▸ hd)
  have hmem : ∀ a, a ∈ s'.alloc ↔ a ∈ s.alloc ∧ ¬ (g ∧ a = k) := by
    intro a
    rw [halloc]
    by_cases hg : g
    · rw [if_pos hg, Finset.mem_erase]
      simp only [hg, true_and]
      exact and_comm
    · rw [if_neg hg]
      simp only [hg, false_and, not_false_eq_true, and_true]
  have hentries : ∀ a, (s'.inode a).entries = ((s.clear d i).inode a).entries := by
    intro a
    unfold State.clear State.setEntries
    rw [hinode a, set_inode]
    by_cases hak : a = k
    · rw [if_pos hak, hak, if_neg (Ne.symm hdk)]
    · rw [if_neg hak]
      split_ifs <;> rfl
  have hentry : ∀ a, a ∈ s.alloc → ∀ j,
      (s'.entry a j).inode = if a = d ∧ j = i then 0 else (s.entry a j).inode := by
    intro a _ j
    rw [← entry_clear hlen]
    unfold State.entry
    rw [hentries a]
  -- what the cleared entry, and those of an inode that is freed, take from the links
  have hlinks : ∀ a, a ≠ 0 → s'.links a + (if a = k then 1 else 0) +
      (if g then cnt a (s.inode k).entries else 0) = s.links a := by
    intro a ha
    have hclear := links_clear hd (hk.trans_ne hk₀) ha
    rw [hk] at hclear
    have hsame : ∀ A : Finset Nat, ∑ x ∈ A, cnt a (s'.inode x).entries =
        ∑ x ∈ A, cnt a ((s.clear d i).inode x).entries :=
      fun A => Finset.sum_congr rfl fun x _ => by rw [hentries x]
    have hleft : (s.clear d i).links a = ∑ x ∈ s.alloc, cnt a ((s.clear d i).inode x).entries := rfl
    have hkeep : ((s.clear d i).inode k).entries = (s.inode k).entries := by
      rw [← hentries, hinode k, if_pos rfl]
    have hright : s'.links a = ∑ x ∈ s'.alloc, cnt a ((s.clear d i).inode x).entries := hsame s'.alloc
    rw [halloc] at hright
    by_cases hg : g
    · have herase := Finset.sum_erase_add s.alloc (fun x => cnt a ((s.clear d i).inode x).entries) hkmem
      rw [hkeep] at herase
      rw [if_pos hg] at hright ⊢
      omega
    · rw [if_neg hg] at hright ⊢
      omega
  have hfew : ¬ g → c = 0 := by
    intro hg
    have hfile : s.isDir k = false := Bool.eq_false_iff.mpr fun hkd => hg (hkdir hkd)
    have hnil := hcnt d hd₀ hdk
    rw [if_pos rfl, h.files k hkmem hfile] at hnil
    exact hnil.symm
  have hcleared : Cleared s s' d i k g := by
    refine ⟨hmem, hentry, fun a => ?_, fun a ha => ?_, hkdir, hempty, hnone⟩
    · unfold State.isDir
      rw [hinode a]
      split_ifs with hak had
      · rw [hak]
      · rw [had]
      · rfl
    · rw [hinode a]
      split_ifs with hak had
      · rw [← hak]
        exact ha
      · rw [had] at ha
        rw [ha] at hlen
        exact absurd hlen (Nat.not_lt_zero i)
      · exact ha
  have hexact : ∀ a, a ∈ s'.alloc → (s'.inode a).nlinks = s'.links a := by
    intro a ha
    obtain ⟨ha₁, hak⟩ := (hmem a).mp ha
    have ha₀ : a ≠ 0 := fun heq => h.zero (heq ▸ ha₁)
    have hold := h.exact a ha₁
    have hnew := hlinks a ha₀
    rw [hinode a]
    by_cases heq : a = k
    · have hg : ¬ g := fun hg => hak ⟨hg, heq⟩
      have hless := (hkept hg).1
      rw [if_pos heq, if_neg hg] at hnew
      rw [heq] at hold hnew ⊢
      rw [if_pos rfl]
      dsimp only
      omega
    · rw [if_neg heq] at hnew ⊢
      rw [hcnt a ha₀ heq] at hnew
      by_cases had : a = d
      · rw [had] at hold hnew ⊢
        rw [if_pos rfl] at hnew ⊢
        dsimp only
        by_cases hg : g
        · rw [if_pos hg] at hnew
          omega
        · rw [if_neg hg] at hnew
          have := hfew hg
          omega
      · rw [if_neg had] at hnew ⊢
        simp only [ite_self] at hnew
        omega
  refine h.cleared hd hi hk hk₀ hcleared (fun a ha => ?_) hexact (fun a ha hzero => ?_) (fun a ha => ?_)
  · have hbyte := h.byte a (hcleared.old ha)
    rw [hinode a]
    split_ifs with hak had
    · have hg : ¬ g := fun hg => ((hmem a).mp ha).2 ⟨hg, hak⟩
      have hless := (hkept hg).1
      rw [hak] at hbyte
      dsimp only
      omega
    · rw [had] at hbyte
      dsimp only
      omega
    · exact hbyte
  · rw [hrefs]
    by_cases had : a = d
    · -- a directory names itself
      have hself := (h.self d hd hdir).1
      have hpos := links_pos (s := s') (i := 0) (had ▸ ha) (k := d) hd₀ (by
        rw [hentry d hd, if_neg fun hand => by omega]
        exact hself)
      rw [had, hexact d (had ▸ ha)] at hzero
      omega
    · rw [hinode a] at hzero
      by_cases hak : a = k
      · have hg : ¬ g := fun hg => ((hmem a).mp ha).2 ⟨hg, hak⟩
        rw [if_pos hak] at hzero
        exact hak ▸ (hkept hg).2 hzero
      · rw [if_neg hak, if_neg had] at hzero
        exact h.held a (hcleared.old ha) hzero
  · rw [hrefs] at ha
    refine (hmem a).mpr ⟨h.refs a ha, ?_⟩
    rintro ⟨hg, rfl⟩
    exact ha (hgone hg)

/-- An inode that nothing names is freed when the last reference to it goes. -/
theorem Good.free (h : Good s) {k : Nat} (hk : k ∈ s.alloc) (hzero : (s.inode k).nlinks = 0) :
    Good { s with alloc := s.alloc.erase k, refs := Function.update s.refs k 0 } := by
  have hk₀ : k ≠ 0 := fun heq => h.zero (heq ▸ hk)
  have hunnamed : ∀ a, a ∈ s.alloc → ∀ i, (s.entry a i).inode ≠ k := by
    intro a ha i heq
    have hpos := links_pos ha hk₀ heq
    have hexact := h.exact k hk
    omega
  have hfile : s.isDir k = false := by
    refine Bool.eq_false_iff.mpr fun hdir => ?_
    exact hunnamed k hk 0 (h.self k hk hdir).1
  have hmem : ∀ a, a ∈ s.alloc.erase k → a ≠ k ∧ a ∈ s.alloc := fun a ha => Finset.mem_erase.mp ha
  have hroot : rootIno ≠ k := by
    rintro rfl
    rw [h.root.2.1] at hfile
    cases hfile
  refine ⟨⟨Finset.mem_erase.mpr ⟨hroot, h.root.1⟩, h.root.2⟩, fun h₀ => h.zero (hmem 0 h₀).2, fun a ha i hnz => ?_,
    fun a ha => h.files a (hmem a ha).2, fun a ha => h.byte a (hmem a ha).2, fun a ha => ?_, fun a ha hn => ?_,
    fun a ha => ?_, fun a ha => h.self a (hmem a ha).2, fun a ha => h.below a (hmem a ha).2,
    fun a ha => h.once a (hmem a ha).2, fun a ha => h.up a (hmem a ha).2⟩
  · have ha₁ := (hmem a ha).2
    exact Finset.mem_erase.mpr ⟨hunnamed a ha₁ i, h.names a ha₁ i hnz⟩
  · have hsum := Finset.sum_erase_add s.alloc (fun x => cnt a (s.inode x).entries) hk
    rw [h.files k hk hfile] at hsum
    refine (h.exact a (hmem a ha).2).trans ?_
    exact hsum.symm
  · obtain ⟨hak, ha₁⟩ := hmem a ha
    dsimp only
    rw [Function.update_of_ne hak]
    exact h.held a ha₁ hn
  · dsimp only at ha
    by_cases hak : a = k
    · rw [hak, Function.update_self] at ha
      exact absurd rfl ha
    · rw [Function.update_of_ne hak] at ha
      exact Finset.mem_erase.mpr ⟨hak, h.refs a ha⟩

theorem Good.drop (h : Good s) {k : Nat} (hk : k ∈ s.alloc) : Good (s.drop k) := by
  have hrefs : ∀ j, Function.update s.refs k (s.refs k - 1) j = if j = k then s.refs k - 1 else s.refs j :=
    fun j => Function.update_apply ..
  unfold State.drop State.iput
  simp only [Function.update_self]
  split_ifs with hlast
  · have hfree := h.free hk hlast.1
    rw [hlast.2]
    exact hfree
  · refine ⟨h.root, h.zero, h.names, h.files, h.byte, h.exact, fun j hj hzero => ?_, fun j hj => ?_, h.self, h.below,
      h.once, h.up⟩
    · dsimp only
      rw [hrefs]
      split_ifs with hjk
      · exact fun heq => hlast ⟨hjk ▸ hzero, heq⟩
      · exact h.held j hj hzero
    · dsimp only at hj
      rw [hrefs] at hj
      split_ifs at hj with hjk
      · exact hjk ▸ hk
      · exact h.refs j hj

/-! ## The parts of calls -/

theorem iput_alloc (s : State) (k : Nat) :
    (s.iput k).alloc = if (s.inode k).nlinks = 0 ∧ s.refs k = 0 then s.alloc.erase k else s.alloc := by
  unfold State.iput
  split_ifs <;> rfl

@[simp] theorem iput_inode (s : State) (k : Nat) : (s.iput k).inode = s.inode := by
  unfold State.iput
  split_ifs <;> rfl

@[simp] theorem iput_refs (s : State) (k : Nat) : (s.iput k).refs = s.refs := by
  unfold State.iput
  split_ifs <;> rfl

theorem iput_of (s : State) {k : Nat} (h : (s.inode k).nlinks = 0 → s.refs k ≠ 0) : s.iput k = s := by
  unfold State.iput
  rw [if_neg]
  rintro ⟨hlinks, hrefs⟩
  exact h hlinks hrefs

theorem find_spec {u : User} {disk : Disk} {d i : Nat} {name : Name} (h : s.find u disk d name = some i) :
    (s.entry d i).inode ≠ 0 := by
  have hnamed : ∀ name', ((List.range (s.inode d).entries.length).find? fun i =>
      disk.readable d (i / dirEntriesPerBlock) && match_ name' (s.entry d i)) = some i → (s.entry d i).inode ≠ 0 := by
    intro name' hfind
    have hmatch := List.find?_some hfind
    simp only [Bool.and_eq_true, match_, bne_iff_ne] at hmatch
    exact hmatch.2.1
  unfold State.find at h
  dsimp only at h
  split_ifs at h
  · exact hnamed dot h
  · exact hnamed _ h

theorem freeSlot_spec {disk : Disk} {d i : Nat} (h : s.freeSlot disk d = some i) : (s.entry d i).inode = 0 := by
  unfold State.freeSlot at h
  dsimp only at h
  split at h
  · split at h
    · cases h
    · next j hj =>
      split_ifs at h
      cases h
      have hfree := List.find?_some hj
      simp only [Bool.and_eq_true, beq_iff_eq] at hfree
      exact hfree.2
  · cases h

theorem addEntry_spec {disk : Disk} {d k : Nat} {name : Name} (h : s.addEntry disk d name k = some s') :
    ∃ i e, (s.entry d i).inode = 0 ∧ e.inode = k ∧ s' = s.setEntries d (place (s.inode d).entries i e) := by
  unfold State.addEntry at h
  obtain ⟨i, hi, rfl⟩ := Option.map_eq_some_iff.mp h
  exact ⟨i, _, freeSlot_spec hi, rfl, rfl⟩

theorem freeInode_spec {k : Nat} (h : s.freeInode = some k) : k ∉ s.alloc ∧ k ≠ 0 := by
  unfold State.freeInode at h
  have hmem := List.mem_of_find?_eq_some h
  have hfree := List.find?_some h
  rw [List.mem_range'_1] at hmem
  exact ⟨by simpa using hfree, by omega⟩

variable {u : User}

theorem Good.walk (h : Good s) (disk : Disk) {d : Nat} (hd : d ∈ s.alloc) (names : List Name) :
    s.walk u disk d names = (s, none) ∨
      ∃ d', d' ∈ s.alloc ∧ s.isDir d' = true ∧ s.walk u disk d names = (s, some d') := by
  induction names generalizing d with
  | nil =>
    unfold State.walk
    rw [h.iput hd]
    split_ifs with hs
    · unfold State.searchable at hs
      rw [Bool.and_eq_true] at hs
      exact Or.inr ⟨d, hd, hs.1, rfl⟩
    · exact Or.inl rfl
  | cons name names ih =>
    unfold State.walk
    rw [h.iput hd]
    split_ifs with hs
    · cases hfind : s.find u disk d name with
      | none => exact Or.inl rfl
      | some i => exact ih (h.names d hd i (find_spec hfind))
    · exact Or.inl rfl

/-- The root and the working directory of the process are in use. -/
def State.Here (s : State) (u : User) : Prop := s.refs u.root ≠ 0 ∧ s.refs u.pwd ≠ 0

theorem Good.dirNamei (h : Good s) (hu : s.Here u) (disk : Disk) (path : Path) :
    s.dirNamei u disk path = (s, none) ∨
      ∃ d, d ∈ s.alloc ∧ s.isDir d = true ∧ s.dirNamei u disk path = (s, some d) := by
  unfold State.dirNamei
  split_ifs
  · exact h.walk disk (h.refs _ hu.1) path.dirs
  · exact Or.inl rfl
  · exact h.walk disk (h.refs _ hu.2) path.dirs

theorem Good.namei (h : Good s) (hu : s.Here u) (disk : Disk) (path : Path) :
    s.namei u disk path = (s, none) ∨ ∃ k, k ∈ s.alloc ∧ s.namei u disk path = (s, some k) := by
  unfold State.namei
  rcases h.dirNamei hu disk path with heq | ⟨d, hd, -, heq⟩
  · rw [heq]
    exact Or.inl rfl
  · rw [heq]
    dsimp only
    split_ifs
    · exact Or.inr ⟨d, hd, rfl⟩
    · rw [h.iput hd]
      cases hfind : s.find u disk d path.base with
      | none => exact Or.inl rfl
      | some i => exact Or.inr ⟨_, h.names d hd i (find_spec hfind), rfl⟩

/-- A state with a new inode that no entry names yet. -/
structure Fresh (s t : State) (k : Nat) : Prop where
  unused : k ∉ s.alloc ∧ k ≠ 0
  alloc  : t.alloc = insert k s.alloc
  inode  : ∀ a, a ≠ k → t.inode a = s.inode a
  refs   : t.refs = s.refs

theorem fresh_newInode {k : Nat} (h : s.freeInode = some k) (u : User) (f : Inode → Inode) :
    Fresh s ((s.newInode u k).set k (f ((s.newInode u k).inode k))) k := by
  refine ⟨freeInode_spec h, rfl, fun a ha => ?_, rfl⟩
  rw [set_inode, if_neg ha]
  exact (set_inode ..).trans (if_neg ha)

theorem Fresh.plain {k : Nat} (h : s.freeInode = some k) (u : User) : Fresh s (s.newInode u k) k :=
  ⟨freeInode_spec h, rfl, fun _ ha => (set_inode ..).trans (if_neg ha), rfl⟩

/-- The new inode is given back. -/
theorem Fresh.undo {t : State} {k : Nat} (hf : Fresh s t k) (h : Good s) :
    Good ((t.setNlinks k 0).iput k) ∧ ((t.setNlinks k 0).iput k).alloc = s.alloc := by
  have hrefs : t.refs k = 0 := by
    rw [hf.refs]
    by_contra hne
    exact hf.unused.1 (h.refs k hne)
  have hput : (t.setNlinks k 0).iput k = { t.setNlinks k 0 with alloc := t.alloc.erase k } := by
    unfold State.iput
    rw [if_pos]
    · rfl
    · unfold State.setNlinks
      rw [set_inode, if_pos rfl]
      exact ⟨rfl, hrefs⟩
  have halloc : t.alloc.erase k = s.alloc := by
    rw [hf.alloc, Finset.erase_insert hf.unused.1]
  rw [hput]
  refine ⟨h.congr halloc (fun a ha => ?_) hf.refs, halloc⟩
  have hak : a ≠ k := fun heq => hf.unused.1 (heq ▸ ha)
  unfold State.setNlinks
  dsimp only
  rw [set_inode, if_neg hak, hf.inode a hak]

/-- The entry for the new inode has been added. -/
theorem Fresh.enter {t t' : State} {d k : Nat} {disk : Disk} {name : Name} (hf : Fresh s t k) (hd : d ∈ s.alloc)
    (hadd : t.addEntry disk d name k = some t') :
    d ≠ k ∧ ∃ i e, (s.entry d i).inode = 0 ∧ e.inode = k ∧ t'.alloc = insert k s.alloc ∧ t'.refs = s.refs ∧
      ∀ j, t'.inode j = if j = k then t.inode k else
        if j = d then { s.inode d with entries := place (s.inode d).entries i e } else s.inode j := by
  have hdk : d ≠ k := fun heq => hf.unused.1 (heq ▸ hd)
  obtain ⟨i, e, hfree, he, rfl⟩ := addEntry_spec hadd
  unfold State.entry at hfree
  rw [hf.inode d hdk] at hfree
  refine ⟨hdk, i, e, hfree, he, hf.alloc, hf.refs, fun j => ?_⟩
  unfold State.setEntries
  rw [set_inode, hf.inode d hdk]
  by_cases hjd : j = d
  · rw [if_pos hjd, hjd, if_neg hdk, if_pos rfl]
  · rw [if_neg hjd, if_neg hjd]
    by_cases hjk : j = k
    · rw [if_pos hjk, hjk]
    · rw [if_neg hjk, hf.inode j hjk]

theorem Good.create (h : Good s) (disk : Disk) {d : Nat} (hd : d ∈ s.alloc) (hdir : s.isDir d = true) (name : Name)
    {mode : Nat} (hmode : isDir mode = false) :
    Good (s.create u disk d name mode).1 ∧ d ∈ (s.create u disk d name mode).1.alloc ∧
      ∀ k, (s.create u disk d name mode).2 = some k → k ∈ (s.create u disk d name mode).1.alloc := by
  unfold State.create
  cases hfree : s.freeInode with
  | none => exact ⟨h, hd, fun _ hk => by cases hk⟩
  | some k =>
    have hf := fresh_newInode hfree u fun x => { x with mode := mode }
    dsimp only at hf ⊢
    cases hadd : ((s.newInode u k).set k { (s.newInode u k).inode k with mode := mode }).addEntry disk d name k with
    | none =>
      obtain ⟨hgood, halloc⟩ := hf.undo h
      dsimp only
      exact ⟨hgood, halloc ▸ hd, fun _ hk => by cases hk⟩
    | some t' =>
      obtain ⟨hdk, i, e, hslot, he, halloc, hrefs, hinode⟩ := hf.enter hd hadd
      have hnew : (s.newInode u k).inode k = ⟨0, u.euid, u.egid, 1, []⟩ := (set_inode ..).trans (if_pos rfl)
      rw [set_inode, if_pos rfl, hnew] at hinode
      have hgood : Good t' :=
        h.made hd hdir hslot hf.unused.1 hf.unused.2 he ⟨Or.inl ⟨rfl, hmode, rfl, rfl⟩⟩ halloc hinode hrefs
      refine ⟨hgood, ?_, fun k' hk' => ?_⟩
      · rw [halloc]
        exact Finset.mem_insert_of_mem hd
      · cases hk'
        rw [halloc]
        exact Finset.mem_insert_self k s.alloc

theorem perm_sIfmt (m n : Nat) : m &&& 0o777 &&& n &&& sIfmt = 0 := by
  rw [Nat.and_assoc, Nat.and_assoc, Nat.and_comm n, ← Nat.and_assoc 0o777]
  simp [sIfmt]

theorem isDir_iDirectory (m n : Nat) : isDir (iDirectory ||| (m &&& 0o777 &&& n)) = true := by
  unfold isDir
  rw [Nat.and_or_distrib_right, perm_sIfmt]
  rfl

theorem isDir_iRegular (m n : Nat) : isDir (iRegular ||| (m &&& 0o777 &&& n)) = false := by
  unfold isDir
  rw [Nat.and_or_distrib_right, perm_sIfmt]
  rfl

/-! ## The calls -/

theorem Good.openNamei (h : Good s) (hu : s.Here u) (disk : Disk) (path : Path) (flag mode : Nat) :
    Good (s.openNamei u disk path flag mode).1 := by
  unfold State.openNamei
  dsimp only
  generalize (if flag &&& oTrunc ≠ 0 ∧ flag &&& oAccmode = 0 then flag ||| oWronly else flag) = flag'
  rcases h.dirNamei hu disk path with heq | ⟨d, hd, hdir, heq⟩
  · rw [heq]
    exact h
  · rw [heq]
    dsimp only
    rw [h.iput hd]
    by_cases hbase : path.base = []
    · rw [if_pos hbase]
      split_ifs
      · exact h.hold hd
      · exact h
    · rw [if_neg hbase]
      cases hfind : s.find u disk d path.base with
      | none =>
        dsimp only
        obtain ⟨hgood, hd', hnew⟩ := h.create (u := u) disk hd hdir path.base
          (isDir_iRegular mode (0o777 ^^^ (u.umask &&& 0o777)))
        split_ifs
        · exact h
        · split
          · next heq' =>
            rw [heq'] at hgood hd'
            rw [hgood.iput hd']
            exact hgood
          · next heq' =>
            rw [heq'] at hgood hd' hnew
            rw [hgood.iput hd']
            exact hgood.hold (hnew _ rfl)
        · exact h
      | some i =>
        have hk := h.names d hd i (find_spec hfind)
        dsimp only
        rw [h.iput hk]
        split_ifs
        · exact h
        · exact h
        · exact h.hold hk

theorem Good.mknod (h : Good s) (hu : s.Here u) (disk : Disk) (path : Path) {mode : Nat} (hmode : isDir mode = false) :
    Good (s.mknod u disk path mode).1 := by
  unfold State.mknod
  by_cases hsuper : u.super = true
  · rw [if_pos hsuper]
    rcases h.dirNamei hu disk path with heq | ⟨d, hd, hdir, heq⟩
    · rw [heq]
      exact h
    · rw [heq]
      dsimp only
      rw [h.iput hd]
      obtain ⟨hgood, hd', hnew⟩ := h.create (u := u) disk hd hdir path.base hmode
      split_ifs
      · exact h
      · split
        · exact h
        · split
          · next heq' =>
            rw [heq'] at hgood hd'
            rw [hgood.iput hd']
            exact hgood
          · next heq' =>
            rw [heq'] at hgood hd' hnew
            rw [hgood.iput hd', hgood.iput (hnew _ rfl)]
            exact hgood
      · exact h
  · rw [if_neg hsuper]
    exact h

/-- `sys_link` adds a link to an inode that has 255. -/
def State.LinkWraps (s : State) (u : User) (disk : Disk) (old new : Path) : Prop :=
  ∃ k d, (s.namei u disk old).2 = some k ∧ s.isDir k = false ∧ (s.dirNamei u disk new).2 = some d ∧
    new.base ≠ [] ∧ s.permission u d mayWrite = true ∧ s.find u disk d new.base = none ∧
    (s.freeSlot disk d).isSome = true ∧ (s.inode k).nlinks = 255

theorem Good.link (h : Good s) (hu : s.Here u) (disk : Disk) (old new : Path)
    (hfits : ¬ s.LinkWraps u disk old new) : Good (s.link u disk old new).1 := by
  unfold State.link
  rcases h.namei hu disk old with hold | ⟨k, hk, hold⟩
  · rw [hold]
    exact h
  rw [hold]
  dsimp only
  rw [h.iput hk]
  by_cases hkdir : s.isDir k = true
  · rw [if_pos hkdir]
    exact h
  rw [if_neg hkdir]
  have hfile : s.isDir k = false := Bool.eq_false_iff.mpr hkdir
  rcases h.dirNamei hu disk new with hnew | ⟨d, hd, hdir, hnew⟩
  · rw [hnew]
    dsimp only
    rw [h.iput hk]
    exact h
  rw [hnew]
  dsimp only
  rw [h.iput hk, h.iput hd, h.iput hk]
  by_cases hbase : new.base = []
  · rw [if_pos hbase]
    exact h
  rw [if_neg hbase]
  by_cases hperm : s.permission u d mayWrite = true
  · rw [if_pos hperm]
    cases hfind : s.find u disk d new.base with
    | some i => exact h
    | none =>
      cases hadd : s.addEntry disk d new.base k with
      | none => exact h
      | some t =>
        have hslot : (s.freeSlot disk d).isSome = true := by
          unfold State.addEntry at hadd
          obtain ⟨i, hi, -⟩ := Option.map_eq_some_iff.mp hadd
          rw [hi]
          rfl
        have hlt : (s.inode k).nlinks ≠ 255 := fun heq =>
          hfits ⟨k, d, by rw [hold], hfile, by rw [hnew], hbase, hperm, hfind, hslot, heq⟩
        have hdk : d ≠ k := by
          rintro rfl
          rw [hfile] at hdir
          cases hdir
        have hbyte := h.byte k hk
        obtain ⟨i, e, hfree, he, rfl⟩ := addEntry_spec hadd
        have hput : (s.setEntries d (place (s.inode d).entries i e)).iput d =
            s.setEntries d (place (s.inode d).entries i e) := by
          refine iput_of _ fun hzero => h.held d hd ?_
          unfold State.setEntries at hzero
          rw [set_inode, if_pos rfl] at hzero
          exact hzero
        dsimp only
        rw [hput]
        have hgood : Good ((s.setEntries d (place (s.inode d).entries i e)).setNlinks k
            (((s.setEntries d (place (s.inode d).entries i e)).inode k).nlinks + 1)) := by
          refine h.linked hd hdir hfree hk hfile he hlt rfl (fun j => ?_) rfl
          unfold State.setNlinks State.setEntries
          simp only [set_inode, if_neg (Ne.symm hdk)]
          rw [Nat.mod_eq_of_lt (by omega)]
        rw [hgood.iput hk]
        exact hgood
  · rw [if_neg hperm]
    exact h

/-- `sys_mkdir` adds a link to a directory that has 255. -/
def State.MkdirWraps (s : State) (u : User) (disk : Disk) (path : Path) : Prop :=
  ∃ d, u.super = true ∧ (s.dirNamei u disk path).2 = some d ∧ path.base ≠ [] ∧ s.permission u d mayWrite = true ∧
    s.find u disk d path.base = none ∧ s.freeInode.isSome = true ∧ disk.zone = true ∧ disk.fresh = true ∧
    (s.freeSlot disk d).isSome = true ∧ (s.inode d).nlinks = 255

theorem freeSlot_congr {disk : Disk} {d : Nat} (h : s'.inode d = s.inode d) : s'.freeSlot disk d = s.freeSlot disk d := by
  unfold State.freeSlot State.entry
  rw [h]

theorem Fresh.iput_old {t : State} {d k : Nat} (hf : Fresh s t k) (h : Good s) (hd : d ∈ s.alloc) : t.iput d = t := by
  have hdk : d ≠ k := fun heq => hf.unused.1 (heq ▸ hd)
  refine iput_of t fun hzero => ?_
  rw [hf.inode d hdk] at hzero
  rw [hf.refs]
  exact h.held d hd hzero

theorem Good.mkdir (h : Good s) (hu : s.Here u) (disk : Disk) (path : Path) (mode : Nat)
    (hfits : ¬ s.MkdirWraps u disk path) {r : Int} (hr : s.mkdir u disk path mode = some (s', r)) : Good s' := by
  unfold State.mkdir at hr
  by_cases hsuper : u.super = true
  · rw [if_pos hsuper] at hr
    rcases h.dirNamei hu disk path with heq | ⟨d, hd, hdir, heq⟩
    · rw [heq] at hr
      cases hr
      exact h
    rw [heq] at hr
    dsimp only at hr
    rw [h.iput hd] at hr
    by_cases hbase : path.base = []
    · rw [if_pos hbase] at hr
      cases hr
      exact h
    rw [if_neg hbase] at hr
    by_cases hperm : s.permission u d mayWrite = true
    · rw [if_pos hperm] at hr
      cases hfind : s.find u disk d path.base with
      | some i =>
        rw [hfind] at hr
        cases hr
        exact h
      | none =>
        rw [hfind] at hr
        dsimp only at hr
        cases hfree : s.freeInode with
        | none =>
          rw [hfree] at hr
          cases hr
          exact h
        | some k =>
          rw [hfree] at hr
          dsimp only at hr
          have hplain := Fresh.plain hfree u
          rw [hplain.iput_old h hd] at hr
          by_cases hzone : disk.zone = true
          · rw [if_pos hzone] at hr
            by_cases hread : disk.fresh = true
            · rw [if_pos hread] at hr
              have hf := fresh_newInode hfree u fun x =>
                { x with
                  mode := iDirectory ||| (mode &&& 0o777 &&& (0o777 ^^^ (u.umask &&& 0o777)))
                  nlinks := 2
                  entries := [⟨k, dot⟩, ⟨d, dotdot⟩] }
              split at hr
              · cases hr
              · next t hadd =>
                obtain ⟨hdk, i, e, hslot, he, halloc, hrefs, hinode⟩ := hf.enter hd hadd
                have hsome : (s.freeSlot disk d).isSome = true := by
                  unfold State.addEntry at hadd
                  obtain ⟨j, hj, -⟩ := Option.map_eq_some_iff.mp hadd
                  rw [freeSlot_congr (hf.inode d hdk)] at hj
                  rw [hj]
                  rfl
                have hlt : (s.inode d).nlinks ≠ 255 := fun hmax =>
                  hfits ⟨d, hsuper, by rw [heq], hbase, hperm, hfind, by rw [hfree]; rfl, hzone, hread, hsome, hmax⟩
                have hbyte := h.byte d hd
                rw [set_inode, if_pos rfl] at hinode
                have htd : (t.inode d).nlinks = (s.inode d).nlinks := by
                  rw [hinode d, if_neg hdk, if_pos rfl]
                have hmade : Made k d { (s.newInode u k).inode k with
                    mode := iDirectory ||| (mode &&& 0o777 &&& (0o777 ^^^ (u.umask &&& 0o777)))
                    nlinks := 2
                    entries := [⟨k, dot⟩, ⟨d, dotdot⟩] } (s.inode d).nlinks ((s.inode d).nlinks + 1) :=
                  ⟨Or.inr ⟨rfl, isDir_iDirectory mode _, rfl, rfl, hlt⟩⟩
                have hgood : Good (t.setNlinks d ((t.inode d).nlinks + 1)) := by
                  refine h.made hd hdir hslot hf.unused.1 hf.unused.2 he hmade halloc (fun j => ?_) hrefs
                  unfold State.setNlinks
                  rw [set_inode, htd, Nat.mod_eq_of_lt (by omega)]
                  by_cases hjd : j = d
                  · rw [if_pos hjd, hjd, if_neg hdk, if_pos rfl, hinode d, if_neg hdk, if_pos rfl]
                  · rw [if_neg hjd, hinode j, if_neg hjd, if_neg hjd]
                have hmem : d ∈ t.alloc ∧ k ∈ t.alloc := by
                  rw [halloc]
                  exact ⟨Finset.mem_insert_of_mem hd, Finset.mem_insert_self k s.alloc⟩
                rw [hgood.iput hmem.1, hgood.iput hmem.2] at hr
                cases hr
                exact hgood
            · rw [if_neg hread] at hr
              cases hr
              exact (hplain.undo h).1
          · rw [if_neg hzone] at hr
            cases hr
            exact (hplain.undo h).1
    · rw [if_neg hperm] at hr
      cases hr
      exact h
  · rw [if_neg hsuper] at hr
    cases hr
    exact h

theorem Good.up_dir (h : Good s) {d : Nat} (hd : d ∈ s.alloc) (hdir : s.isDir d = true) :
    s.isDir (s.entry d 1).inode = true := by
  by_cases hroot : d = rootIno
  · rw [hroot, h.root.2.2]
    exact h.root.2.1
  · obtain ⟨j, -, hup⟩ := h.up d hd hdir hroot
    by_contra hfile
    have hnil := h.files _ (h.names d hd 1 (h.self d hd hdir).2) (Bool.eq_false_iff.mpr hfile)
    unfold State.entry at hup hnil
    rw [hnil] at hup
    have hd₀ : 0 = d := hup
    exact h.zero (hd₀ ▸ hd)

/-- An entry for another inode than the directory and its parent is not among the first two. -/
theorem Good.after_dots (h : Good s) {d i k : Nat} (hd : d ∈ s.alloc) (hdir : s.isDir d = true)
    (hk : (s.entry d i).inode = k) (hdk : d ≠ k) (hup : (s.entry d 1).inode ≠ k) : 2 ≤ i := by
  by_contra hlt
  have hcases : i = 0 ∨ i = 1 := by omega
  rcases hcases with rfl | rfl
  · exact hdk ((h.self d hd hdir).1.symm.trans hk)
  · exact hup hk

theorem Good.unlink (h : Good s) (hu : s.Here u) (disk : Disk) (path : Path) : Good (s.unlink u disk path).1 := by
  unfold State.unlink
  rcases h.dirNamei hu disk path with heq | ⟨d, hd, hdir, heq⟩
  · rw [heq]
    exact h
  rw [heq]
  dsimp only
  rw [h.iput hd]
  by_cases hbase : path.base = []
  · rw [if_pos hbase]
    exact h
  rw [if_neg hbase]
  by_cases hperm : s.permission u d mayWrite = true
  · rw [if_pos hperm]
    cases hfind : s.find u disk d path.base with
    | none => exact h
    | some i =>
      dsimp only
      have hne := find_spec hfind
      generalize hk : (s.entry d i).inode = k at *
      have hkmem : k ∈ s.alloc := hk ▸ h.names d hd i (hk.trans_ne hne)
      rw [h.iput hkmem, h.iput hd]
      by_cases hsticky : (s.inode d).mode &&& sIsvtx ≠ 0 ∧ ¬ u.super ∧ u.euid ≠ (s.inode k).uid ∧ u.euid ≠ (s.inode d).uid
      · rw [if_pos hsticky]
        exact h
      rw [if_neg hsticky]
      by_cases hkdir : s.isDir k = true
      · rw [if_pos hkdir]
        exact h
      rw [if_neg hkdir]
      have hdk : d ≠ k := fun heq => hkdir (heq ▸ hdir)
      have hlen : i < (s.inode d).entries.length := lt_of_entry (hk.trans_ne hne)
      have hi : 2 ≤ i := h.after_dots hd hdir hk hdk fun heq => hkdir (heq ▸ h.up_dir hd hdir)
      have hlinks := h.exact k hkmem
      have hbyte := h.byte k hkmem
      have hpos := links_pos hd hne hk
      have hless := links_clear hd (hk.trans_ne hne) hne
      rw [hk, if_pos rfl] at hless
      rw [if_neg (by omega)]
      have hinode : ∀ j, ((s.clear d i).setNlinks k ((s.inode k).nlinks - 1)).inode j =
          if j = k then { s.inode k with nlinks := (s.inode k).nlinks - 1 } else if j = d then
            { s.inode d with entries := (s.inode d).entries.set i { s.entry d i with inode := 0 } } else s.inode j := by
        intro j
        unfold State.setNlinks State.clear State.setEntries
        simp only [set_inode, if_neg (Ne.symm hdk)]
        rw [Nat.mod_eq_of_lt (by omega)]
      have hzero : (((s.clear d i).setNlinks k ((s.inode k).nlinks - 1)).inode k).nlinks = (s.inode k).nlinks - 1 := by
        rw [hinode k, if_pos rfl]
      have hgood : Good (((s.clear d i).setNlinks k ((s.inode k).nlinks - 1)).iput k) := by
        refine h.erased (n := (s.inode k).nlinks - 1) (c := 0) (g := (s.inode k).nlinks - 1 = 0 ∧ s.refs k = 0) hd hdir hi hk hne hdk ?_
          (fun j => ?_) ?_ (fun hdir => absurd hdir hkdir) ?_ ?_ ?_ rfl (fun hg => hg.2) ?_
        · rw [iput_alloc, hzero]
          rfl
        · rw [iput_inode]
          exact hinode j
        · rw [iput_refs]
          rfl
        · intro _ j _
          unfold State.entry
          rw [h.files k hkmem (Bool.eq_false_iff.mpr hkdir)]
          rfl
        · intro hg a ha _ j hother hname
          have hmore := links_pos (s := s.clear d i) (d := a) (i := j) ha hne (by
            rw [entry_clear hlen, if_neg hother]
            exact hname)
          omega
        · intro a _ _
          rw [h.files k hkmem (Bool.eq_false_iff.mpr hkdir), ite_self]
          rfl
        · intro hg
          exact ⟨by omega, fun hz href => hg ⟨hz, href⟩⟩
      have hdmem : d ∈ (((s.clear d i).setNlinks k ((s.inode k).nlinks - 1)).iput k).alloc := by
        rw [iput_alloc]
        split_ifs
        · exact Finset.mem_erase.mpr ⟨hdk, hd⟩
        · exact hd
      rw [hgood.iput hdmem]
      exact hgood
  · rw [if_neg hperm]
    exact h

theorem emptyDir_spec {disk : Disk} {k : Nat} (h : s.emptyDir disk k = true) (j : Nat) (hj : 2 ≤ j) :
    (s.entry k j).inode = 0 := by
  unfold State.emptyDir at h
  simp only [Bool.and_eq_true, List.all_eq_true, List.mem_range, Bool.or_eq_true, decide_eq_true_eq, beq_iff_eq] at h
  by_contra hne
  rcases h.2 j (lt_of_entry hne) with hlt | hfree
  · omega
  · exact hne hfree.2

/-- An empty directory is no parent of another. -/
theorem Good.no_child (h : Good s) {a k : Nat} (hrest : ∀ j, 2 ≤ j → (s.entry k j).inode = 0) (ha : a ∈ s.alloc)
    (hadir : s.isDir a = true) (hak : a ≠ k) : (s.entry a 1).inode ≠ k := by
  intro hup
  by_cases hroot : a = rootIno
  · rw [hroot, h.root.2.2] at hup
    exact hak (hroot.trans hup)
  · obtain ⟨j, hj, hname⟩ := h.up a ha hadir hroot
    rw [hup, hrest j hj] at hname
    exact h.zero (hname ▸ ha)

theorem Good.only_name (h : Good s) {d i k : Nat} (hd : d ∈ s.alloc) (hi : 2 ≤ i) (hk : (s.entry d i).inode = k)
    (hne : k ≠ 0) (hkdir : s.isDir k = true) (hrest : ∀ j, 2 ≤ j → (s.entry k j).inode = 0) {a j : Nat}
    (ha : a ∈ s.alloc) (hak : a ≠ k) (hother : ¬ (a = d ∧ j = i)) : (s.entry a j).inode ≠ k := by
  intro hname
  by_cases hadir : s.isDir a = true
  · have hj : 2 ≤ j := h.after_dots ha hadir hname hak (h.no_child hrest ha hadir hak)
    have hparent := (h.below d hd i hi k hne hk hkdir).2
    have hsame := (h.below a ha j hj k hne hname hkdir).2
    rw [hparent] at hsame
    subst hsame
    exact hother ⟨rfl, h.once d hd j i hj hi k hne hname hk hkdir⟩
  · unfold State.entry at hname
    rw [h.files a ha (Bool.eq_false_iff.mpr hadir)] at hname
    exact hne hname.symm

/-- The entries of an empty directory. -/
theorem cnt_dots {es : List Entry} {k d a : Nat} (hself : (entryAt es 0).inode = k) (hup : (entryAt es 1).inode = d)
    (hd : d ≠ 0) (hrest : ∀ j, 2 ≤ j → (entryAt es j).inode = 0) (ha : a ≠ 0) (hak : a ≠ k) :
    cnt a es = if a = d then 1 else 0 := by
  have hlen : 1 < es.length := lt_of_entry (hup.trans_ne hd)
  match es, hlen with
  | e₀ :: e₁ :: rest, _ =>
    have hzero : cnt a rest = 0 := cnt_zero fun j heq => ha (heq.symm.trans (hrest (j + 2) (by omega)))
    have hself' : e₀.inode = k := hself
    have hup' : e₁.inode = d := hup
    unfold cnt at hzero ⊢
    rw [List.countP_cons, List.countP_cons, hzero]
    simp only [hself', hup', beq_iff_eq]
    rw [if_neg (Ne.symm hak)]
    simp only [eq_comm (b := a)]
    omega

theorem Good.rmdir (h : Good s) (hu : s.Here u) (disk : Disk) (path : Path) : Good (s.rmdir u disk path).1 := by
  unfold State.rmdir
  by_cases hsuper : u.super = true
  · rw [if_pos hsuper]
    rcases h.dirNamei hu disk path with heq | ⟨d, hd, hdir, heq⟩
    · rw [heq]
      exact h
    rw [heq]
    dsimp only
    rw [h.iput hd]
    by_cases hbase : path.base = []
    · rw [if_pos hbase]
      exact h
    rw [if_neg hbase]
    by_cases hperm : s.permission u d mayWrite = true
    · rw [if_pos hperm]
      cases hfind : s.find u disk d path.base with
      | none => exact h
      | some i =>
        dsimp only
        have hne := find_spec hfind
        generalize hk : (s.entry d i).inode = k at *
        have hkmem : k ∈ s.alloc := hk ▸ h.names d hd i (hk.trans_ne hne)
        rw [h.iput hkmem, h.iput hd]
        by_cases hsticky : (s.inode d).mode &&& sIsvtx ≠ 0 ∧ u.euid ≠ 0 ∧ (s.inode k).uid ≠ u.euid
        · rw [if_pos hsticky]
          exact h
        rw [if_neg hsticky]
        by_cases hbusy : 0 < s.refs k ∨ k = d
        · rw [if_pos hbusy]
          exact h
        rw [if_neg hbusy]
        by_cases hkdir : s.isDir k = true
        · rw [if_neg (not_not.mpr hkdir)]
          by_cases hempty : s.emptyDir disk k = true
          · rw [if_neg (not_not.mpr hempty)]
            have hrefs : s.refs k = 0 := by omega
            have hdk : d ≠ k := fun heq => hbusy (Or.inr heq.symm)
            have hd₀ : d ≠ 0 := fun heq => h.zero (heq ▸ hd)
            have hrest := emptyDir_spec hempty
            have hi : 2 ≤ i := h.after_dots hd hdir hk hdk (h.no_child hrest hd hdir hdk)
            have hparent := (h.below d hd i hi k hne hk hkdir).2
            have hself := h.self k hkmem hkdir
            have hdself := (h.self d hd hdir).1
            have hbyte := h.byte d hd
            have hexact := h.exact d hd
            have hpos := links_pos hd hd₀ hdself
            have hmod : ((s.inode d).nlinks + 255) % 256 = (s.inode d).nlinks - 1 := by omega
            have hinode : ∀ j, (((s.clear d i).setNlinks k 0).setNlinks d ((s.inode d).nlinks + 255)).inode j =
                if j = k then { s.inode k with nlinks := 0 } else if j = d then
                  { s.inode d with
                    nlinks := (s.inode d).nlinks - 1
                    entries := (s.inode d).entries.set i { s.entry d i with inode := 0 } } else s.inode j := by
              intro j
              unfold State.setNlinks State.clear State.setEntries
              simp only [set_inode, if_neg hdk, if_neg (Ne.symm hdk), hmod]
              by_cases hjd : j = d
              · rw [if_pos hjd, hjd, if_neg hdk, if_pos rfl]
                rfl
              · rw [if_neg hjd, if_neg hjd, if_neg hjd]
            have hdlinks : (((s.clear d i).setNlinks k 0).inode d).nlinks = (s.inode d).nlinks := by
              unfold State.setNlinks State.clear State.setEntries
              rw [set_inode, if_neg hdk, set_inode, if_pos rfl]
            rw [hdlinks]
            generalize ht : ((s.clear d i).setNlinks k 0).setNlinks d ((s.inode d).nlinks + 255) = t at *
            have htalloc : t.alloc = s.alloc := by
              rw [← ht]
              rfl
            have htrefs : t.refs = s.refs := by
              rw [← ht]
              rfl
            have hgood : Good { t with alloc := s.alloc.erase k } := by
              refine h.erased (n := 0) (m := (s.inode d).nlinks - 1) (c := 1) (g := True) hd hdir hi hk hne hdk
                (if_pos trivial).symm hinode htrefs (fun _ => trivial) (fun _ => hrest) ?_ ?_ (by omega)
                (fun _ => hrefs) (fun hg => absurd trivial hg)
              · intro _ a ha hak j hother
                exact h.only_name hd hi hk hne hkdir hrest ha hak hother
              · intro a ha hak
                exact cnt_dots hself.1 hparent hd₀ hrest ha hak
            have hdmem : d ∈ s.alloc.erase k := Finset.mem_erase.mpr ⟨hdk, hd⟩
            have hput : t.iput d = t := by
              refine iput_of t fun hzero => ?_
              have hnew := hgood.exact d hdmem
              have hnewpos := links_pos (d := d) (i := 0) (s := { t with alloc := s.alloc.erase k }) hdmem hd₀
                (hgood.self d hdmem (by
                  unfold State.isDir
                  dsimp only
                  rw [hinode d, if_neg hdk, if_pos rfl]
                  exact hdir)).1
              dsimp only at hnew
              omega
            have hfree : t.iput k = { t with alloc := s.alloc.erase k } := by
              unfold State.iput
              rw [if_pos, htalloc]
              rw [hinode k, if_pos rfl, htrefs]
              exact ⟨rfl, hrefs⟩
            rw [hput, hfree]
            exact hgood
          · rw [if_pos hempty]
            exact h
        · rw [if_pos hkdir]
          exact h
    · rw [if_neg hperm]
      exact h
  · rw [if_neg hsuper]
    exact h

/-! ## Runs -/

/-- A call that adds no link to an inode that has 255; or a process takes another reference to
an inode that it has, or gives one back. -/
inductive Step (s : State) : State → Prop where
  | openNamei {u : User} (hu : s.Here u) (disk : Disk) (path : Path) (flag mode : Nat) :
      Step s (s.openNamei u disk path flag mode).1
  | mknod {u : User} (hu : s.Here u) (disk : Disk) (path : Path) {mode : Nat} (hmode : isDir mode = false) :
      Step s (s.mknod u disk path mode).1
  | mkdir {u : User} (hu : s.Here u) (disk : Disk) (path : Path) (mode : Nat) (hfits : ¬ s.MkdirWraps u disk path)
      {s' : State} {r : Int} (hr : s.mkdir u disk path mode = some (s', r)) : Step s s'
  | link {u : User} (hu : s.Here u) (disk : Disk) (old new : Path) (hfits : ¬ s.LinkWraps u disk old new) :
      Step s (s.link u disk old new).1
  | unlink {u : User} (hu : s.Here u) (disk : Disk) (path : Path) : Step s (s.unlink u disk path).1
  | rmdir {u : User} (hu : s.Here u) (disk : Disk) (path : Path) : Step s (s.rmdir u disk path).1
  | hold {k : Nat} (hk : s.refs k ≠ 0) : Step s (s.hold k)
  | drop {k : Nat} (hk : s.refs k ≠ 0) : Step s (s.drop k)

theorem good_step (h : Good s) (hs : Step s s') : Good s' := by
  cases hs with
  | openNamei hu disk path flag mode => exact h.openNamei hu disk path flag mode
  | mknod hu disk path hmode => exact h.mknod hu disk path hmode
  | mkdir hu disk path mode hfits hr => exact h.mkdir hu disk path mode hfits hr
  | link hu disk old new hfits => exact h.link hu disk old new hfits
  | unlink hu disk path => exact h.unlink hu disk path
  | rmdir hu disk path => exact h.rmdir hu disk path
  | hold hk => exact h.hold (h.refs _ hk)
  | drop hk => exact h.drop (h.refs _ hk)

theorem good_reach {s₀ : State} (h₀ : Good s₀) (hr : Relation.ReflTransGen Step s₀ s) : Good s := by
  induction hr with
  | refl => exact h₀
  | tail _ hs ih => exact good_step ih hs

/-- **Link counts are exact.** In runs of such calls every count is the number of entries,
and what is free has no entry; so `iput` frees an inode when its last name is gone, and not before. -/
theorem link_counts {s₀ : State} (h₀ : Good s₀) (hr : Relation.ReflTransGen Step s₀ s) :
    (∀ k, k ∈ s.alloc → (s.inode k).nlinks = s.links k) ∧ ∀ k, k ∉ s.alloc → k ≠ 0 → s.links k = 0 := by
  have h := good_reach h₀ hr
  exact ⟨h.exact, fun k hk hk₀ => h.links_free hk hk₀⟩

/-! ## A file with many names -/

def nameOf (i : Nat) : Name := [BitVec.ofNat 8 (97 + i / 16), BitVec.ofNat 8 (97 + i % 16)]

/-- The root directory, with `n` names of the inode 2. -/
def crowdEntries (n : Nat) : List Entry :=
  ⟨1, dot⟩ :: ⟨1, dotdot⟩ :: (List.range n).map fun i => ⟨2, nameOf i⟩

def crowd (n : Nat) : State where
  ninodes := 2
  alloc   := {1, 2}
  inode k := if k = 1 then ⟨0o040755, 0, 0, 2, crowdEntries n⟩ else ⟨0o100644, 0, 0, n, []⟩
  refs k  := if k = 1 then 2 else 0

theorem crowd_name {n i : Nat} (hi : i < n) : (crowd n).entry 1 (i + 2) = ⟨2, nameOf i⟩ := by
  have htail : (crowd n).entry 1 (i + 2) = entryAt ((List.range n).map fun i => (⟨2, nameOf i⟩ : Entry)) i := rfl
  rw [htail]
  unfold entryAt
  rw [List.getD_eq_getElem?_getD, List.getElem?_map, List.getElem?_range hi]
  rfl

theorem crowd_entry (n i : Nat) :
    ((crowd n).entry 1 i).inode = if i < 2 then 1 else if i < n + 2 then 2 else 0 := by
  match i with
  | 0 => rfl
  | 1 => rfl
  | i + 2 =>
    rw [if_neg (by omega)]
    by_cases hi : i < n
    · rw [crowd_name hi, if_pos (by omega)]
    · have hend : (crowd n).entry 1 (i + 2) = ⟨0, []⟩ := by
        unfold State.entry entryAt
        rw [List.getD_eq_getElem?_getD, List.getElem?_eq_none (by simpa [crowd, crowdEntries] using hi)]
        rfl
      rw [hend, if_neg (by omega)]

theorem crowd_file (n : Nat) {k : Nat} (hk : k ≠ 1) (i : Nat) : ((crowd n).entry k i).inode = 0 := by
  unfold State.entry crowd
  dsimp only
  rw [if_neg hk]
  rfl

theorem crowd_cnt (n k : Nat) : cnt k (crowdEntries n) = (if k = 1 then 2 else 0) + if k = 2 then n else 0 := by
  have hnames : cnt k ((List.range n).map fun i => (⟨2, nameOf i⟩ : Entry)) = if k = 2 then n else 0 := by
    unfold cnt
    rw [List.countP_map]
    by_cases hk : k = 2
    · rw [if_pos hk, hk]
      refine (List.countP_eq_length.mpr fun _ _ => rfl).trans List.length_range
    · rw [if_neg hk]
      exact List.countP_eq_zero.mpr fun _ _ heq => hk (beq_iff_eq.mp heq).symm
  unfold cnt at hnames ⊢
  unfold crowdEntries
  rw [List.countP_cons, List.countP_cons, hnames]
  simp only [beq_iff_eq, eq_comm (b := k)]
  split_ifs <;> omega

theorem crowd_links (n k : Nat) : (crowd n).links k = (if k = 1 then 2 else 0) + if k = 2 then n else 0 := by
  have hsum : (crowd n).links k = cnt k (crowdEntries n) + cnt k [] := Finset.sum_pair (by decide)
  rw [hsum, crowd_cnt]
  rfl

theorem good_crowd {n : Nat} (hpos : 0 < n) (hfits : n < 256) : Good (crowd n) := by
  have hmem : ∀ k, k ∈ (crowd n).alloc → k = 1 ∨ k = 2 := fun k hk => by
    unfold crowd at hk
    simpa using hk
  have hfile : (crowd n).isDir 2 = false := by
    have hmode : isDir 0o100644 = false := by decide
    exact hmode
  have hroot : (crowd n).isDir 1 = true := by
    have hmode : isDir 0o040755 = true := by decide
    exact hmode
  -- the names are those of a file
  have hflat : ∀ d, d ∈ (crowd n).alloc → ∀ i, 2 ≤ i → ∀ k, k ≠ 0 → ((crowd n).entry d i).inode = k →
      ¬ (crowd n).isDir k = true := by
    intro d hd i hi k hk hik hkdir
    rcases hmem d hd with rfl | rfl
    · rw [crowd_entry, if_neg (by omega)] at hik
      split_ifs at hik
      · rw [← hik, hfile] at hkdir
        cases hkdir
      · exact hk hik.symm
    · rw [crowd_file n (by decide)] at hik
      exact hk hik.symm
  refine ⟨⟨by simp [crowd, rootIno], hroot, rfl⟩, by simp [crowd], fun d hd i hnz => ?_, fun k hk hkfile => ?_,
    fun k hk => ?_, fun k hk => ?_, fun k hk hzero => ?_, fun k hk => ?_, fun d hd hdir => ?_,
    fun d hd i hi k hk hik hkdir => ?_, fun d hd i j hi hj k hk hik hjk hkdir => ?_, fun k hk hkdir hne => ?_⟩
  · rcases hmem d hd with rfl | rfl
    · rw [crowd_entry] at hnz ⊢
      split_ifs at hnz ⊢
      · simp [crowd]
      · simp [crowd]
      · exact absurd rfl hnz
    · exact absurd (crowd_file n (by decide) i) hnz
  · rcases hmem k hk with rfl | rfl
    · rw [hroot] at hkfile
      cases hkfile
    · rfl
  · rcases hmem k hk with rfl | rfl
    · exact (by decide : 2 < 256)
    · exact hfits
  · rw [crowd_links]
    rcases hmem k hk with rfl | rfl
    · rfl
    · exact (Nat.zero_add n).symm
  · rcases hmem k hk with rfl | rfl
    · cases hzero
    · exact absurd hzero (Nat.ne_of_gt hpos)
  · by_cases heq : k = 1
    · rw [heq]
      simp [crowd]
    · exact absurd (if_neg heq) hk
  · rcases hmem d hd with rfl | rfl
    · exact ⟨rfl, Nat.one_ne_zero⟩
    · rw [hfile] at hdir
      cases hdir
  · exact absurd hkdir (hflat d hd i hi k hk hik)
  · exact absurd hkdir (hflat d hd i hi k hk hik)
  · rcases hmem k hk with rfl | rfl
    · exact absurd rfl hne
    · rw [hfile] at hkdir
      cases hkdir

def superUser : User := ⟨0, 0, 0, 1, 1⟩

def soundDisk : Disk := ⟨fun _ _ => true, true, true, true⟩

def firstName : Path := ⟨true, [], nameOf 0⟩

def newName : Path := ⟨true, [], [98#8]⟩

theorem crowd_length (n : Nat) : ((crowd n).inode 1).entries.length = n + 2 := by
  simp [crowd, crowdEntries]

theorem crowd_find (n : Nat) {name : Name} (htake : name.take nameLen = name) (hne : name ≠ []) (hdots : name ≠ dotdot) :
    (crowd n).find superUser soundDisk 1 name =
      (List.range (n + 2)).find? fun i => match_ name ((crowd n).entry 1 i) := by
  have hread : soundDisk.readable 1 0 = true := rfl
  have hname : ¬ (name = dotdot ∧ 1 = superUser.root) := fun h => hdots h.1
  unfold State.find
  dsimp only
  rw [htake, if_neg hne, if_pos hread, if_neg hname, crowd_length]
  rfl

/-- The first of the names is found. -/
theorem crowd_old {n : Nat} (hpos : 0 < n) : (crowd n).find superUser soundDisk 1 firstName.base = some 2 := by
  rw [crowd_find n rfl (by decide) (by decide), List.find?_range_eq_some]
  refine ⟨?_, by simpa using hpos, fun j hj => ?_⟩
  · have hname : (crowd n).entry 1 2 = ⟨2, nameOf 0⟩ := crowd_name hpos
    rw [hname]
    decide
  · match j with
    | 0 => rfl
    | 1 => rfl

/-- Another name is not. -/
theorem crowd_new (n : Nat) : (crowd n).find superUser soundDisk 1 newName.base = none := by
  rw [crowd_find n rfl (by decide) (by decide), List.find?_range_eq_none]
  intro i hi
  match i with
  | 0 => rfl
  | 1 => rfl
  | i + 2 =>
    have hlen : nameOf i ≠ newName.base := fun h => absurd (congrArg List.length h) (Nat.succ_ne_self 1)
    rw [crowd_name (by omega)]
    simp [match_, hlen]

/-- The first free slot is behind the names. -/
theorem crowd_slot (n : Nat) : (crowd n).freeSlot soundDisk 1 = some (n + 2) := by
  have hscan : ∀ p : Nat → Bool, (∀ i, p i = (((crowd n).entry 1 i).inode == 0)) →
      (List.range (n + 2 + dirEntriesPerBlock)).find? p = some (n + 2) := by
    intro p hp
    rw [List.find?_range_eq_some, hp]
    refine ⟨?_, by simp [dirEntriesPerBlock], fun j hj => ?_⟩
    · rw [crowd_entry, if_neg (by omega), if_neg (by omega)]
      rfl
    · rw [hp, crowd_entry, if_pos hj]
      split_ifs <;> rfl
  have hread : soundDisk.readable 1 0 = true := rfl
  unfold State.freeSlot
  dsimp only
  rw [if_pos hread, crowd_length, hscan _ fun i => by simp [soundDisk]]
  dsimp only
  exact if_pos (Or.inr rfl)

/-- The superuser may do anything in the directory. -/
theorem crowd_permission (n mask : Nat) : (crowd n).permission superUser 1 mask = true := by
  simp [State.permission, crowd, User.super, superUser]

theorem crowd_root (n : Nat) : (crowd n).isDir 1 = true := by
  have hmode : isDir 0o040755 = true := by decide
  exact hmode

theorem crowd_plain (n : Nat) : (crowd n).isDir 2 = false := by
  have hmode : isDir 0o100644 = false := by decide
  exact hmode

theorem crowd_walk (n : Nat) {path : Path} (habs : path.absolute = true) (hdirs : path.dirs = []) :
    (crowd n).dirNamei superUser soundDisk path = (crowd n, some 1) := by
  have hsearch : (crowd n).searchable superUser 1 = true := by
    rw [State.searchable, crowd_root, crowd_permission]
    rfl
  unfold State.dirNamei
  rw [if_pos habs, hdirs]
  exact if_pos hsearch

/-- The directory with one more name. -/
def crowdNamed (n : Nat) : State :=
  (crowd n).setEntries 1 (place (crowdEntries n) (n + 2) ⟨2, newName.base⟩)

/-- One more name, and one more link. -/
theorem crowd_link {n : Nat} (hpos : 0 < n) : (crowd n).link superUser soundDisk firstName newName =
    (((crowdNamed n).setNlinks 2 (n + 1)).iput 2, 0) := by
  have hput : (crowd n).iput 1 = crowd n := iput_of _ fun h => absurd h (by simp [crowd])
  have hputNamed : (crowdNamed n).iput 1 = crowdNamed n := iput_of _ fun _ => Nat.succ_ne_zero 1
  have hold : (crowd n).namei superUser soundDisk firstName = (crowd n, some 2) := by
    have hname : ((crowd n).entry 1 2).inode = 2 := by
      rw [crowd_entry, if_neg (by decide), if_pos (by omega)]
    unfold State.namei
    rw [crowd_walk n rfl rfl]
    dsimp only
    rw [if_neg (by decide), crowd_old hpos]
    dsimp only
    rw [hput, hname]
  have hadd : (crowd n).addEntry soundDisk 1 newName.base 2 = some (crowdNamed n) := by
    unfold State.addEntry
    rw [crowd_slot]
    rfl
  unfold State.link
  rw [hold]
  dsimp only
  rw [crowd_plain, if_neg Bool.false_ne_true, crowd_walk n rfl rfl]
  dsimp only
  rw [if_neg (by decide), if_pos (crowd_permission n mayWrite), crowd_new, hadd]
  dsimp only
  rw [hputNamed]
  rfl

theorem crowd_named (n : Nat) : cnt 2 ((crowdNamed n).inode 1).entries = n + 1 := by
  have hfree : (entryAt (crowdEntries n) (n + 2)).inode = 0 := by
    have hentry := crowd_entry n (n + 2)
    rwa [if_neg (by omega), if_neg (by omega)] at hentry
  have hplaced : ((crowdNamed n).inode 1).entries = place (crowdEntries n) (n + 2) ⟨2, newName.base⟩ := rfl
  rw [hplaced, cnt_place (by decide) hfree, crowd_cnt, if_neg (by decide), if_pos rfl, if_pos rfl, Nat.zero_add]

theorem link_counts_crowd :
    ((crowd 1).link superUser soundDisk firstName newName).2 = 0 ∧
      ∀ k, k ∈ ((crowd 1).link superUser soundDisk firstName newName).1.alloc →
        (((crowd 1).link superUser soundDisk firstName newName).1.inode k).nlinks =
          ((crowd 1).link superUser soundDisk firstName newName).1.links k := by
  refine ⟨by decide +kernel, (link_counts (good_crowd (by decide) (by decide)) (.single (.link ?_ _ _ _ ?_))).1⟩
  · exact ⟨by decide, by decide⟩
  · rintro ⟨k, d, hk, -, -, -, -, -, -, hmax⟩
    have hfile : ((crowd 1).namei superUser soundDisk firstName).2 = some 2 := by decide +kernel
    rw [hfile] at hk
    cases hk
    cases hmax

/-- `i_nlinks++` of 255: the file is freed, and has 256 names. -/
theorem link_wraps :
    Good (crowd 255) ∧ ((crowd 255).link superUser soundDisk firstName newName).2 = 0 ∧
      (((crowd 255).link superUser soundDisk firstName newName).1.inode 2).nlinks = 0 ∧
      ((crowd 255).link superUser soundDisk firstName newName).1.links 2 = 256 ∧
      2 ∉ ((crowd 255).link superUser soundDisk firstName newName).1.alloc := by
  have hzero : (((crowdNamed 255).setNlinks 2 256).inode 2).nlinks = 0 := rfl
  have hput : ((crowdNamed 255).setNlinks 2 256).iput 2 =
      { (crowdNamed 255).setNlinks 2 256 with alloc := {1} } := if_pos ⟨hzero, rfl⟩
  rw [crowd_link (by decide), hput]
  refine ⟨good_crowd (by decide) (by decide), rfl, hzero, ?_, by decide⟩
  exact (Finset.sum_singleton _ 1).trans (crowd_named 255)

end Linux011.Fs.LinkCount
