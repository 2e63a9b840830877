import Linux011.Fs.AddEntry

/-!
# Creations that fail

`open(O_CREAT)`, `sys_mknod`, `sys_mkdir` and `sys_link`, alone on a consistent file system, with
the inodes and zones that they take and give back. When one of them returns an error, the file
system is as it was, except that a directory may have got index blocks that it keeps.

* `Ok` — a consistent file system;
* `Spare.give` — a new inode that no entry names is given back;
* `Crowded` — `sys_mkdir` gets a block for the new directory, and then there is no room for its
  entry; it frees the block, and so does `iput`, which panics;
* `undoes_iff` — every other call undoes itself.
-/

namespace Linux011.Fs.Creation

open Linux011.Fs.Names (Name Entry dot dotdot dirEntriesPerBlock)
open Linux011.Fs.OpenFile (oAccmode oWronly oCreat oExcl oTrunc accMode)
open Linux011.Fs.LinkCount (User Path entryAt place eperm enoent eacces eexist eisdir enospc error mayWrite
  iRegular iDirectory Fresh)
open Linux011.Fs.ZoneMap (Pos Good Fair Free)
open Linux011.Fs.FileData (bmapIo truncate room maxBlock dataPos)

def einval : Int := 22

def sIfblk : Nat := 0o060000
def sIfchr : Nat := 0o020000

/-- What can be read of the directories: a path is looked up without taking anything. -/
def State.disk (s : State) (ok : Nat → Bool) : LinkCount.Disk where
  readable d b := (bmapIo s.zones d b false (index s.zones ok d b)).any fun x => x.2 != 0 && ok x.2
  zone  := false
  fresh := false
  grow  := false

/-- `dir_namei`. -/
def State.dirNamei (s : State) (u : User) (ok : Nat → Bool) (path : Path) : State × Option Nat :=
  let x := s.links.dirNamei u (s.disk ok) path
  ({ s with links := x.1 }, x.2)

/-- `namei`. -/
def State.namei (s : State) (u : User) (ok : Nat → Bool) (path : Path) : State × Option Nat :=
  let x := s.links.namei u (s.disk ok) path
  ({ s with links := x.1 }, x.2)

/-- `find_entry`. -/
def State.find (s : State) (u : User) (ok : Nat → Bool) (d : Nat) (name : Name) : Option Nat :=
  s.links.find u (s.disk ok) d name

/-- `iput`: the last reference to an inode without links. Nothing if it panics. -/
def State.iput (s : State) (ok : Nat → Bool) (k : Nat) : Option State :=
  if (s.links.inode k).nlinks = 0 ∧ s.links.refs k = 0 then
    (truncate ok s.zones k).map fun zones => ⟨s.links.iput k, zones.put k ⟨0, fun _ => 0⟩⟩
  else some s

/-- `iput` of the inodes that a call has, and its result. -/
def State.leave (s : State) (ok : Nat → Bool) (r : Int) : List Nat → Option (State × Int)
  | [] => some (s, r)
  | k :: ks => (s.iput ok k).bind fun s => s.leave ok r ks

/-- `free_block`. -/
def State.freeBlock (s : State) (z : Nat) : Option State := (s.zones.freeBlock z).map fun zones => { s with zones := zones }

def State.hold (s : State) (k : Nat) : State := { s with links := s.links.hold k }

def State.release (s : State) (k : Nat) : State :=
  { s with links := { s.links with refs := Function.update s.links.refs k (s.links.refs k - 1) } }

def State.setNlinks (s : State) (k n : Nat) : State := { s with links := s.links.setNlinks k n }

/-- `new_inode`. -/
def State.newInode (s : State) (u : User) (k : Nat) : State := ⟨s.links.newInode u k, s.zones.put k ⟨0, fun _ => 0⟩⟩

def State.setMode (s : State) (k mode : Nat) : State :=
  ⟨s.links.set k { s.links.inode k with mode := mode }, s.zones.put k { s.zones.inode k with mode := mode }⟩

/-- `.` and `..`, and `i_nlinks` of a directory. -/
def State.setDots (s : State) (k d : Nat) : State :=
  { s with links := s.links.set k { s.links.inode k with entries := [⟨k, dot⟩, ⟨d, dotdot⟩], nlinks := 2 } }

def State.setZone (s : State) (k z : Nat) : State := { s with zones := s.zones.setZone k 0 z }

/-- `open_namei`, and what `sys_open` does with the inode. -/
def State.openNamei (s : State) (u : User) (ok : Nat → Bool) (opened : State → Nat → Option (State × Int))
    (path : Path) (flag mode : Nat) : Option (State × Int) :=
  let flag := if flag &&& oTrunc ≠ 0 ∧ flag &&& oAccmode = 0 then flag ||| oWronly else flag
  match s.dirNamei u ok path with
  | (s, none) => some (s, -enoent)
  | (s, some d) =>
    if path.base = [] then
      if flag &&& (oAccmode ||| oCreat ||| oTrunc) = 0 then opened (s.hold d) d else s.leave ok (-eisdir) [d]
    else
      match s.find u ok d path.base with
      | none =>
        if flag &&& oCreat = 0 then s.leave ok (-enoent) [d]
        else if s.links.permission u d mayWrite then
          match s.links.freeInode with
          | none => s.leave ok (-enospc) [d]
          | some k =>
            let s := (s.newInode u k).setMode k (iRegular ||| (mode &&& 0o777 &&& (0o777 ^^^ (u.umask &&& 0o777))))
            match s.addEntry ok d path.base k with
            | none => none
            | some (s, false) => (s.setNlinks k ((s.links.inode k).nlinks + 255)).leave ok (-enospc) [k, d]
            | some (s, true) => ((s.hold k).iput ok d).bind fun s => opened s k
        else s.leave ok (-eacces) [d]
      | some i =>
        let k := (s.links.entry d i).inode
        (s.iput ok d).bind fun s =>
          if flag &&& oExcl ≠ 0 then some (s, -eexist)
          else if (s.links.isDir k ∧ flag &&& oAccmode ≠ 0) ∨ ¬ s.links.permission u k (accMode flag) then
            s.leave ok (-eperm) [k]
          else
            let s := s.hold k
            if flag &&& oTrunc ≠ 0 then (truncate ok s.zones k).bind fun zones => opened { s with zones := zones } k
            else opened s k

/-- The rest of `sys_open`: `/dev/tty` of a process that has none. -/
def State.opened (s : State) (ok : Nat → Bool) (tty : Bool) (k : Nat) : Option (State × Int) :=
  if (s.links.inode k).mode &&& LinkCount.sIfmt = sIfchr ∧ s.zones.zone k 0 >>> 8 = 5 ∧ tty = false then
    (s.release k).leave ok (-eperm) [k]
  else some (s, 0)

/-- `sys_open`. There may be no descriptor, or no file for it. -/
def State.sysOpen (s : State) (u : User) (ok : Nat → Bool) (files tty : Bool) (path : Path) (flag mode : Nat) :
    Option (State × Int) :=
  if files then s.openNamei u ok (fun s k => s.opened ok tty k) path flag mode else some (s, -einval)

/-- `sys_mknod`. -/
def State.mknod (s : State) (u : User) (ok : Nat → Bool) (path : Path) (mode dev : Nat) : Option (State × Int) :=
  if u.super then
    match s.dirNamei u ok path with
    | (s, none) => some (s, -enoent)
    | (s, some d) =>
      if path.base = [] then s.leave ok (-enoent) [d]
      else if s.links.permission u d mayWrite then
        match s.find u ok d path.base with
        | some _ => s.leave ok (-eexist) [d]
        | none =>
          match s.links.freeInode with
          | none => s.leave ok (-enospc) [d]
          | some k =>
            -- `i_mode` and `i_zone` are `unsigned short`
            let mode := mode % 65536
            let s := (s.newInode u k).setMode k mode
            let s := if mode &&& LinkCount.sIfmt = sIfblk ∨ mode &&& LinkCount.sIfmt = sIfchr
              then s.setZone k (dev % 65536) else s
            match s.addEntry ok d path.base k with
            | none => none
            | some (s, false) => (s.iput ok d).bind fun s => (s.setNlinks k 0).leave ok (-enospc) [k]
            | some (s, true) => s.leave ok 0 [d, k]
      else s.leave ok (-eperm) [d]
  else some (s, -eperm)

/-- The part of `sys_mkdir` that makes the directory. -/
def State.makeDir (s : State) (u : User) (ok : Nat → Bool) (d : Nat) (name : Name) (mode k : Nat) :
    Option (State × Int) :=
  let s := s.newInode u k
  let (zones, block) := s.zones.newBlock
  let s := { s with zones := zones }.setZone k block
  if block = 0 then
    (s.iput ok d).bind fun s => (s.setNlinks k ((s.links.inode k).nlinks + 255)).leave ok (-enospc) [k]
  else if ok block then
    let s := (s.setDots k d).setMode k (iDirectory ||| (mode &&& 0o777 &&& (0o777 ^^^ (u.umask &&& 0o777))))
    match s.addEntry ok d name k with
    | none => none
    | some (s, false) =>
      (s.iput ok d).bind fun s => (s.freeBlock (s.zones.zone k 0)).bind fun s =>
        (s.setNlinks k 0).leave ok (-enospc) [k]
    | some (s, true) => (s.setNlinks d ((s.links.inode d).nlinks + 1)).leave ok 0 [d, k]
  else
    (s.iput ok d).bind fun s => (s.freeBlock (s.zones.zone k 0)).bind fun s =>
      (s.setNlinks k ((s.links.inode k).nlinks + 255)).leave ok (-error) [k]

/-- `sys_mkdir`. -/
def State.mkdir (s : State) (u : User) (ok : Nat → Bool) (path : Path) (mode : Nat) : Option (State × Int) :=
  if u.super then
    match s.dirNamei u ok path with
    | (s, none) => some (s, -enoent)
    | (s, some d) =>
      if path.base = [] then s.leave ok (-enoent) [d]
      else if s.links.permission u d mayWrite then
        match s.find u ok d path.base with
        | some _ => s.leave ok (-eexist) [d]
        | none =>
          match s.links.freeInode with
          | none => s.leave ok (-enospc) [d]
          | some k => s.makeDir u ok d path.base mode k
      else s.leave ok (-eperm) [d]
  else some (s, -eperm)

/-- `sys_link`. -/
def State.link (s : State) (u : User) (ok : Nat → Bool) (old new : Path) : Option (State × Int) :=
  match s.namei u ok old with
  | (s, none) => some (s, -enoent)
  | (s, some k) =>
    if s.links.isDir k then s.leave ok (-eperm) [k]
    else
      match s.dirNamei u ok new with
      | (s, none) => s.leave ok (-eacces) [k]
      | (s, some d) =>
        if new.base = [] then s.leave ok (-eperm) [k, d]
        else if s.links.permission u d mayWrite then
          match s.find u ok d new.base with
          | some _ => s.leave ok (-eexist) [d, k]
          | none =>
            match s.addEntry ok d new.base k with
            | none => none
            | some (s, false) => s.leave ok (-enospc) [d, k]
            | some (s, true) =>
              (s.iput ok d).bind fun s => (s.setNlinks k ((s.links.inode k).nlinks + 1)).leave ok 0 [k]
        else s.leave ok (-eacces) [d, k]

/-- The calls that make an entry. -/
inductive Call
  | sysOpen (files tty : Bool) (path : Path) (flag mode : Nat)
  | sysMknod (path : Path) (mode dev : Nat)
  | sysMkdir (path : Path) (mode : Nat)
  | sysLink (old new : Path)

/-- A call on a disk that can read the blocks `io`. Nothing if it panics. -/
def State.run (s : State) (u : User) (io : Nat → Bool) : Call → Option (State × Int)
  | .sysOpen files tty path flag mode => s.sysOpen u (s.reads io) files tty path flag mode
  | .sysMknod path mode dev => s.mknod u (s.reads io) path mode dev
  | .sysMkdir path mode => s.mkdir u (s.reads io) path mode
  | .sysLink old new => s.link u (s.reads io) old new

/-- A consistent file system. A zone number is 16 bits. -/
structure Ok (s : State) : Prop where
  links  : LinkCount.Good s.links
  zones  : Good s.zones
  small  : s.zones.nzones < 65536
  mode   : ∀ k, k ∈ s.links.alloc → (s.zones.inode k).mode = (s.links.inode k).mode
  unused : ∀ k, k ∉ s.links.alloc → (s.zones.inode k).mode = 0
  /-- A directory is no larger than a file can be. -/
  size   : ∀ d, d ∈ s.links.alloc → (s.links.inode d).entries.length ≤ maxBlock * dirEntriesPerBlock
  holes  : ∀ d, d ∈ s.links.alloc → s.links.isDir d = true → ∀ i, (s.links.entry d i).inode ≠ 0 →
    s.there d (i / dirEntriesPerBlock)

/-- The file system is consistent, with the inodes, the entries and the link counts that it had. -/
structure Undone (s t : State) : Prop where
  ok    : Ok t
  alloc : t.links.alloc = s.links.alloc
  inode : ∀ k, k ∈ s.links.alloc → t.links.inode k = s.links.inode k
  refs  : t.links.refs = s.links.refs

/-- What a call has come to: no panic, and what it did undone if it is an error. -/
def Ends (s : State) : Option (State × Int) → Prop
  | none => False
  | some (t, r) => r < 0 → Undone s t

def Undoes (s : State) (u : User) (io : Nat → Bool) (c : Call) : Prop := Ends s (s.run u io c)

/-- `sys_mkdir` comes to the entry, for which there is no room beside the new block. -/
def Crowded (s : State) (u : User) (ok : Nat → Bool) : Call → Prop
  | .sysMkdir path _ => u.super = true ∧ ∃ d, (s.dirNamei u ok path).2 = some d ∧ path.base ≠ [] ∧
      s.links.permission u d mayWrite = true ∧ s.find u ok d path.base = none ∧ s.links.freeInode ≠ none ∧
      room s.zones ≠ 0 ∧ ¬ s.Roomy ok d (room s.zones - 1)
  | _ => False

variable {s t : State} {u : User} {ok : Nat → Bool} {d k : Nat}

/-! ## Inodes that are given back -/

theorem dirNamei_spec (h : Ok s) (hu : s.links.Here u) (ok : Nat → Bool) (path : Path) :
    s.dirNamei u ok path = (s, none) ∨
      ∃ d, d ∈ s.links.alloc ∧ s.links.isDir d = true ∧ s.dirNamei u ok path = (s, some d) := by
  unfold State.dirNamei
  rcases h.links.dirNamei hu (s.disk ok) path with heq | ⟨d, hd, hdir, heq⟩
  · rw [heq]
    exact Or.inl rfl
  · rw [heq]
    exact Or.inr ⟨d, hd, hdir, rfl⟩

theorem namei_spec (h : Ok s) (hu : s.links.Here u) (ok : Nat → Bool) (path : Path) :
    s.namei u ok path = (s, none) ∨ ∃ k, k ∈ s.links.alloc ∧ s.namei u ok path = (s, some k) := by
  unfold State.namei
  rcases h.links.namei hu (s.disk ok) path with heq | ⟨k, hk, heq⟩
  · rw [heq]
    exact Or.inl rfl
  · rw [heq]
    exact Or.inr ⟨k, hk, rfl⟩

/-- The inode has links, or references. -/
def State.Held (s : State) (k : Nat) : Prop := (s.links.inode k).nlinks = 0 → s.links.refs k ≠ 0

theorem iput_held (h : s.Held k) : s.iput ok k = some s := by
  unfold State.iput
  rw [if_neg]
  rintro ⟨hlinks, hrefs⟩
  exact h hlinks hrefs

theorem leave_held {r : Int} {ks : List Nat} (h : ∀ k, k ∈ ks → s.Held k) : s.leave ok r ks = some (s, r) := by
  induction ks with
  | nil => rfl
  | cons k ks ih =>
    unfold State.leave
    rw [iput_held (h k (List.mem_cons_self ..))]
    exact ih fun j hj => h j (List.mem_cons_of_mem _ hj)

theorem truncate_total {z : ZoneMap.State} (h : Fair z) (ok : Nat → Bool) (k : Nat) : ∃ z', truncate ok z k = some z' := by
  by_cases hfile : z.file k = true
  · obtain ⟨z', heq, -⟩ := FileData.truncate_kept h hfile ok
    exact ⟨z', heq⟩
  · unfold truncate
    exact ⟨z, if_neg hfile⟩

/-- No `iput` panics where the zones are in order. -/
theorem iput_total (h : Fair s.zones) (ok : Nat → Bool) (k : Nat) :
    ∃ t, s.iput ok k = some t ∧ t.links.inode = s.links.inode := by
  unfold State.iput
  split_ifs
  · obtain ⟨z, heq⟩ := truncate_total h ok k
    rw [heq]
    exact ⟨_, rfl, LinkCount.iput_inode ..⟩
  · exact ⟨s, rfl, rfl⟩

theorem Ok.held (h : Ok s) (hk : k ∈ s.links.alloc) : s.Held k := h.links.held k hk

theorem Ok.file (h : Ok s) (hd : d ∈ s.links.alloc) (hdir : s.links.isDir d = true) : s.zones.file d = true := by
  replace hdir : LinkCount.isDir (s.links.inode d).mode = true := hdir
  rw [← h.mode d hd] at hdir
  unfold ZoneMap.State.file
  rw [Bool.or_eq_true]
  exact Or.inr hdir

/-- An entry is in a block that a file can have. -/
theorem Ok.valid_entry (h : Ok s) (hd : d ∈ s.links.alloc) {i : Nat} (hi : (s.links.entry d i).inode ≠ 0) :
    (dataPos (i / dirEntriesPerBlock)).Valid := by
  have hlen : i < (s.links.inode d).entries.length := LinkCount.lt_of_entry hi
  refine FileData.dataPos_valid (Nat.div_lt_of_lt_mul ?_)
  rw [Nat.mul_comm]
  exact hlen.trans_le (h.size d hd)

/-- An inode that is not in use has no zones. -/
theorem Ok.no_file (h : Ok s) (hk : k ∉ s.links.alloc) : s.zones.file k = false := by
  unfold ZoneMap.State.file
  rw [h.unused k hk]
  rfl

/-- Only the inodes in use matter, and of their zones those that are there. -/
theorem Ok.undone (h : Ok s) (halloc : t.links.alloc = s.links.alloc)
    (hinode : ∀ a, a ∈ s.links.alloc → t.links.inode a = s.links.inode a) (hrefs : t.links.refs = s.links.refs)
    (hgood : Good t.zones) (hnzones : t.zones.nzones = s.zones.nzones)
    (hmode : ∀ a, a ∈ s.links.alloc → (t.zones.inode a).mode = (s.zones.inode a).mode)
    (hunused : ∀ a, a ∉ s.links.alloc → (t.zones.inode a).mode = 0)
    (hkept : ∀ a q, a ∈ s.links.alloc → s.zones.Has a q → s.zones.at a q ≠ 0 → t.zones.at a q = s.zones.at a q) :
    Undone s t := by
  refine ⟨⟨h.links.congr halloc hinode hrefs, hgood, ?_, fun a ha => ?_, fun a ha => ?_, fun a ha => ?_,
    fun a ha hdir i hi => ?_⟩, halloc, hinode, hrefs⟩
  · rw [hnzones]
    exact h.small
  · rw [halloc] at ha
    rw [hmode a ha, hinode a ha]
    exact h.mode a ha
  · rw [halloc] at ha
    exact hunused a ha
  · rw [halloc] at ha
    rw [hinode a ha]
    exact h.size a ha
  · rw [halloc] at ha
    unfold LinkCount.State.isDir at hdir
    unfold LinkCount.State.entry at hi
    rw [hinode a ha] at hdir hi
    have hthere := h.holes a ha hdir i hi
    have hhas : s.zones.Has a (dataPos (i / dirEntriesPerBlock)) := ⟨h.file ha hdir, h.valid_entry ha hi⟩
    unfold State.there
    rw [hkept a _ ha hhas hthere]
    exact hthere

theorem Ok.refl (h : Ok s) : Undone s s :=
  h.undone rfl (fun _ _ => rfl) rfl h.zones rfl (fun _ _ => rfl) h.unused fun _ _ _ _ _ => rfl

/-- The call has changed nothing. -/
theorem ends_leave (h : Ok s) {r : Int} {ks : List Nat} (hks : ∀ k, k ∈ ks → k ∈ s.links.alloc) :
    Ends s (s.leave ok r ks) := by
  rw [leave_held fun k hk => h.held (hks k hk)]
  exact fun _ => h.refl

/-- The call has succeeded. -/
theorem ends_done (hfair : Fair t.zones) (d : Nat) (ks : List Nat) (hks : ∀ k, k ∈ ks → (t.links.inode k).nlinks ≠ 0) :
    Ends s (t.leave ok 0 (d :: ks)) := by
  unfold State.leave
  obtain ⟨t', heq, hinode⟩ := iput_total hfair ok d
  rw [heq, Option.bind_some, leave_held fun k hk hzero => ?_]
  · exact fun hneg => absurd hneg (lt_irrefl 0)
  · rw [hinode] at hzero
    exact absurd hzero (hks k hk)

/-- The zones of an inode that has none are freed, which changes nothing. -/
theorem truncate_empty {z : ZoneMap.State} (hzero : ∀ j, j < 9 → z.zone k j = 0) : truncate ok z k = some z := by
  have hdirect : ∀ ks : List Nat, (∀ j, j ∈ ks → j < 9) → z.freeDirect k ks = some z := by
    intro ks hks
    induction ks with
    | nil => rfl
    | cons j ks ih =>
      rw [FileData.freeDirect_cons, if_pos (hzero j (hks j (List.mem_cons_self ..)))]
      exact ih fun i hi => hks i (List.mem_cons_of_mem _ hi)
  have h₇ := hzero 7 (by omega)
  have h₈ := hzero 8 (by omega)
  unfold truncate
  split_ifs
  · have hrange : z.freeDirect k (List.range 7) = some z :=
      hdirect _ fun j hj => (List.mem_range.mp hj).trans (by omega)
    have hind : FileData.freeInd ok z (z.zone k 7) = some z := if_pos h₇
    have hdind : FileData.freeDind ok z (z.zone k 8) = some z := if_pos h₈
    show (z.freeDirect k (List.range 7)).bind (fun z => (FileData.freeInd ok z (z.zone k 7)).bind fun z =>
      (FileData.freeDind ok z (z.zone k 8)).bind fun z => some ((z.setZone k 7 0).setZone k 8 0)) = some z
    rw [hrange, Option.bind_some, hind, Option.bind_some, hdind, Option.bind_some, ZoneMap.setZone_self h₇,
      ZoneMap.setZone_self h₈]
  · rfl

theorem put_inode (z : ZoneMap.State) (k m : Nat) (x : ZoneMap.Inode) :
    (z.put k x).inode m = if m = k then x else z.inode m := Function.update_apply ..

theorem put_at {z : ZoneMap.State} {m : Nat} (hm : m ≠ k) (x : ZoneMap.Inode) (q : Pos) :
    (z.put k x).at m q = z.at m q := ZoneMap.at_other ((put_inode z k m x).trans (if_neg hm)) rfl q

/-- An inode without zones takes the place of one that has none. -/
theorem good_put {z : ZoneMap.State} (h : Good z) (hnone : ∀ q, z.Has k q → z.at k q = 0) {x : ZoneMap.Inode}
    (hx : (z.put k x).file k = true → ∀ j, x.zone j = 0) : Good (z.put k x) := by
  have hhas : ∀ m q, m ≠ k → ((z.put k x).Has m q ↔ z.Has m q) := by
    intro m q hm
    unfold ZoneMap.State.Has ZoneMap.State.file
    rw [put_inode, if_neg hm]
  have hat : ∀ m q, m ≠ k → (z.put k x).at m q = z.at m q := fun m q hm => put_at hm x q
  have hzero : ∀ q, (z.put k x).Has k q → (z.put k x).at k q = 0 := by
    intro q hq
    refine ZoneMap.at_zero (fun j _ => ?_) hq.2
    unfold ZoneMap.State.zone
    rw [put_inode, if_pos rfl]
    exact hx hq.1 j
  have hne : ∀ m q, (z.put k x).Has m q → (z.put k x).at m q ≠ 0 → m ≠ k := by
    rintro m q hq hat rfl
    exact hat (hzero q hq)
  refine ⟨h.first, h.zero, fun m q hq hnz => ?_, fun m q m' q' hq hq' hnz heq => ?_, fun y hy hy' => ?_⟩
  · have hm := hne m q hq hnz
    rw [hat m q hm] at hnz ⊢
    exact h.range m q ((hhas m q hm).mp hq) hnz
  · have hm := hne m q hq hnz
    have hm' := hne m' q' hq' (heq ▸ hnz)
    rw [hat m q hm] at hnz heq
    rw [hat m' q' hm'] at heq
    exact h.once m q m' q' ((hhas m q hm).mp hq) ((hhas m' q' hm').mp hq') hnz heq
  · refine (h.exact y hy hy').trans ⟨?_, ?_⟩
    · rintro ⟨m, q, hq, hmq⟩
      have hm : m ≠ k := by
        rintro rfl
        have hpos := h.first
        have hlow : z.firstdatazone ≤ y := hy
        rw [hnone q hq] at hmq
        omega
      exact ⟨m, q, (hhas m q hm).mpr hq, (hat m q hm).trans hmq⟩
    · rintro ⟨m, q, hq, hmq⟩
      have hpos := h.first
      have hlow : z.firstdatazone ≤ y := hy
      have hm := hne m q hq (by omega)
      exact ⟨m, q, (hhas m q hm).mp hq, (hat m q hm).symm.trans hmq⟩

/-- A call that began in `s` has the new inode `k`. -/
structure Spare (s t : State) (k : Nat) : Prop where
  fresh : Fresh s.links t.links k
  good  : Good t.zones
  marks : FileData.Marks s.zones t.zones
  mode  : ∀ m, m ≠ k → (t.zones.inode m).mode = (s.zones.inode m).mode
  kept  : ∀ m q, m ≠ k → s.zones.Has m q → s.zones.at m q ≠ 0 → t.zones.at m q = s.zones.at m q

theorem Spare.ne (hs : Spare s t k) (hd : d ∈ s.links.alloc) : d ≠ k := fun heq => hs.fresh.unused.1 (heq ▸ hd)

theorem Spare.held (hs : Spare s t k) (h : Ok s) (hd : d ∈ s.links.alloc) : t.Held d := by
  unfold State.Held
  rw [hs.fresh.inode d (hs.ne hd), hs.fresh.refs]
  exact h.held hd

theorem Spare.has (hs : Spare s t k) {m : Nat} {q : Pos} (hm : m ≠ k) (hq : s.zones.Has m q) : t.zones.Has m q :=
  ⟨(FileData.file_congr (hs.mode m hm)).trans hq.1, hq.2⟩

/-- **The new inode is given back**, if it has no zones. -/
theorem Spare.give (hs : Spare s t k) (h : Ok s) (ok : Nat → Bool) (hnone : ∀ q, t.zones.Has k q → t.zones.at k q = 0) {n : Nat}
    (hn : n % 256 = 0) : ∃ t', (t.setNlinks k n).iput ok k = some t' ∧ Undone s t' := by
  obtain ⟨hk, -⟩ := hs.fresh.unused
  have hrefs : s.links.refs k = 0 := by
    by_contra hne
    exact hk (h.links.refs k hne)
  have hzero : ((t.setNlinks k n).links.inode k).nlinks = 0 := by
    unfold State.setNlinks LinkCount.State.setNlinks
    dsimp only
    rw [LinkCount.set_inode, if_pos rfl]
    exact hn
  have hlast : (t.setNlinks k n).links.refs k = 0 := (congrFun hs.fresh.refs k).trans hrefs
  have htrunc : truncate ok t.zones k = some t.zones := by
    by_cases hfile : t.zones.file k = true
    · exact truncate_empty fun j hj => hnone (.zone j) ⟨hfile, hj⟩
    · unfold truncate
      exact if_neg hfile
  have hiput : (t.setNlinks k n).iput ok k =
      some ⟨(t.links.setNlinks k n).iput k, t.zones.put k ⟨0, fun _ => 0⟩⟩ := by
    unfold State.iput
    rw [if_pos ⟨hzero, hlast⟩]
    show (truncate ok t.zones k).map _ = _
    rw [htrunc]
    rfl
  have halloc : ((t.links.setNlinks k n).iput k).alloc = s.links.alloc := by
    rw [LinkCount.iput_alloc, if_pos ⟨hzero, hlast⟩]
    show t.links.alloc.erase k = _
    rw [hs.fresh.alloc, Finset.erase_insert hk]
  refine ⟨_, hiput, h.undone halloc (fun a ha => ?_) ?_ ?_ ?_ (fun a ha => ?_) (fun a ha => ?_) fun a q ha hq hne => ?_⟩
  · rw [LinkCount.iput_inode]
    unfold LinkCount.State.setNlinks
    rw [LinkCount.set_inode, if_neg (hs.ne ha), hs.fresh.inode a (hs.ne ha)]
  · rw [LinkCount.iput_refs]
    exact hs.fresh.refs
  · exact good_put hs.good hnone fun _ _ => rfl
  · exact hs.marks.nzones
  · rw [put_inode, if_neg (hs.ne ha)]
    exact hs.mode a (hs.ne ha)
  · rw [put_inode]
    split_ifs with hak
    · rfl
    · exact (hs.mode a hak).trans (h.unused a ha)
  · rw [put_at (hs.ne ha)]
    exact hs.kept a q (hs.ne ha) hq hne

/-! ## New inodes -/

/-- The blocks that are free when a call starts count as read. -/
def Reads (s : State) (ok : Nat → Bool) : Prop := ∀ z, Free s.zones z → ok z = true

theorem reads_free (s : State) (io : Nat → Bool) : Reads s (s.reads io) := by
  intro z hz
  unfold State.reads
  simp [hz.clear]

theorem Ok.ready (h : Ok s) (hok : Reads s ok) (hd : d ∈ s.links.alloc) (hdir : s.links.isDir d = true) :
    Ready s ok d := ⟨h.zones, h.file hd hdir, h.small, hok, h.holes d hd hdir⟩

theorem Spare.ready (hs : Spare s t k) (h : Ok s) (hok : Reads s ok) (hd : d ∈ s.links.alloc)
    (hdir : s.links.isDir d = true) : Ready t ok d := by
  have hr := h.ready hok hd hdir
  have hdk := hs.ne hd
  refine ⟨hs.good, (FileData.file_congr (hs.mode d hdk)).trans hr.dir, ?_, fun z hz => hok z (hs.marks.free hz),
    fun i hi => ?_⟩
  · rw [hs.marks.nzones]
    exact hr.small
  · unfold LinkCount.State.entry at hi
    rw [hs.fresh.inode d hdk] at hi
    have hthere := hr.holes i hi
    have hhas : s.zones.Has d (dataPos (i / dirEntriesPerBlock)) := ⟨hr.dir, h.valid_entry hd hi⟩
    unfold State.there
    rw [hs.kept d _ hdk hhas hthere]
    exact hthere

/-- The directory may have got blocks. -/
theorem Ok.grown (h : Ok s) (hg : Grown s.zones t.zones d) (hlinks : t.links = s.links) : Undone s t := by
  refine h.undone (by rw [hlinks]) (fun _ _ => by rw [hlinks]) (by rw [hlinks]) hg.good hg.marks.nzones
    (fun a _ => hg.mode a) (fun a ha => (hg.mode a).trans (h.unused a ha)) fun a q _ hq hne => ?_
  by_cases had : a = d
  · subst had
    exact hg.kept q hq hne
  · exact hg.others a q hq had

theorem Spare.grown {t' : State} (hs : Spare s t k) (hdk : d ≠ k) (hg : Grown t.zones t'.zones d)
    (hlinks : t'.links = t.links) : Spare s t' k := by
  refine ⟨hlinks ▸ hs.fresh, hg.good, hs.marks.trans hg.marks, fun m hm => (hg.mode m).trans (hs.mode m hm),
    fun m q hm hq hne => ?_⟩
  have hkept := hs.kept m q hm hq hne
  by_cases hmd : m = d
  · subst hmd
    rw [hg.kept q (hs.has hm hq) (hkept.trans_ne hne), hkept]
  · rw [hg.others m q (hs.has hm hq) hmd, hkept]

theorem Grown.at_none {z z' : ZoneMap.State} (hg : Grown z z' d) (hdk : d ≠ k) (hnone : ∀ q, z.Has k q → z.at k q = 0)
    (q : Pos) (hq : z'.Has k q) : z'.at k q = 0 := by
  have hq' : z.Has k q := ⟨(FileData.file_congr (hg.mode k)).symm.trans hq.1, hq.2⟩
  rw [hg.others k q hq' (Ne.symm hdk)]
  exact hnone q hq'

/-- Of the inodes only the entries change. -/
theorem Added.inode {e : Entry} {r : Bool} (ha : Added s t d e r) (a : Nat) :
    (t.links.inode a).nlinks = (s.links.inode a).nlinks ∧ (t.links.inode a).mode = (s.links.inode a).mode := by
  cases r with
  | false =>
    rw [ha.failed rfl]
    exact ⟨rfl, rfl⟩
  | true =>
    obtain ⟨i, -, hlinks⟩ := ha.placed rfl
    rw [hlinks]
    unfold LinkCount.State.setEntries
    rw [LinkCount.set_inode]
    split_ifs with had
    · rw [had]
      exact ⟨rfl, rfl⟩
    · exact ⟨rfl, rfl⟩

theorem Added.refs {e : Entry} {r : Bool} (ha : Added s t d e r) : t.links.refs = s.links.refs := by
  cases r with
  | false => rw [ha.failed rfl]
  | true =>
    obtain ⟨i, -, hlinks⟩ := ha.placed rfl
    rw [hlinks]
    rfl

theorem Added.held {e : Entry} {r : Bool} (ha : Added s t d e r) {a : Nat} (h : s.Held a) : t.Held a := by
  unfold State.Held
  rw [(ha.inode a).1, ha.refs]
  exact h

/-- A new inode without zones. -/
theorem spare_put (h : Ok s) (hf : Fresh s.links t.links k) {x : ZoneMap.Inode} (hzones : t.zones = s.zones.put k x)
    (hx : (s.zones.put k x).file k = true → ∀ j, x.zone j = 0) :
    Spare s t k ∧ ∀ q, t.zones.Has k q → t.zones.at k q = 0 := by
  obtain ⟨hk, -⟩ := hf.unused
  have hnone : ∀ q, s.zones.Has k q → s.zones.at k q = 0 := by
    intro q hq
    have hfile := hq.1
    rw [h.no_file hk] at hfile
    cases hfile
  refine ⟨⟨hf, ?_, ?_, fun m hm => ?_, fun m q hm _ _ => ?_⟩, fun q hq => ?_⟩
  · rw [hzones]
    exact good_put h.zones hnone hx
  · rw [hzones]
    exact ⟨rfl, rfl, Finset.Subset.refl _⟩
  · rw [hzones, put_inode, if_neg hm]
  · rw [hzones, put_at hm]
  · rw [hzones] at hq ⊢
    refine ZoneMap.at_zero (fun j _ => ?_) hq.2
    unfold ZoneMap.State.zone
    rw [put_inode, if_pos rfl]
    exact hx hq.1 j

theorem newInode_inode (s : State) (u : User) (k : Nat) :
    (s.newInode u k).links.inode k = ⟨0, u.euid, u.egid, 1, []⟩ := (LinkCount.set_inode ..).trans (if_pos rfl)

theorem setMode_inode (s : State) (k mode : Nat) :
    (s.setMode k mode).links.inode k = { s.links.inode k with mode := mode } :=
  (LinkCount.set_inode ..).trans (if_pos rfl)

theorem newInode_nlinks (s : State) (u : User) (k mode : Nat) :
    (((s.newInode u k).setMode k mode).links.inode k).nlinks = 1 := by
  rw [setMode_inode, newInode_inode]

theorem newInode_setMode (s : State) (u : User) (k mode : Nat) :
    ((s.newInode u k).setMode k mode).zones = s.zones.put k ⟨mode, fun _ => 0⟩ := by
  unfold State.newInode State.setMode
  dsimp only
  rw [put_inode, if_pos rfl, ZoneMap.put_put]

theorem put_setZone (z : ZoneMap.State) (k y : Nat) (x : ZoneMap.Inode) :
    (z.put k x).setZone k 0 y = z.put k { x with zone := Function.update x.zone 0 y } := by
  unfold ZoneMap.State.setZone
  rw [put_inode, if_pos rfl]
  exact ZoneMap.put_put z k x _

theorem Undone.held {t : State} (hundone : Undone s t) (h : Ok s) (hd : d ∈ s.links.alloc) : t.Held d := by
  unfold State.Held
  rw [hundone.inode d hd, hundone.refs]
  exact h.held hd

theorem Undone.leave {t : State} (hundone : Undone s t) (h : Ok s) {r : Int} {ks : List Nat}
    (hks : ∀ k, k ∈ ks → k ∈ s.links.alloc) : Ends s (t.leave ok r ks) := by
  rw [leave_held fun k hk => hundone.held h (hks k hk)]
  exact fun _ => hundone

theorem Spare.leave (hs : Spare s t k) (h : Ok s) (hnone : ∀ q, t.zones.Has k q → t.zones.at k q = 0) {n : Nat}
    (hn : n % 256 = 0) {r : Int} {ks : List Nat} (hks : ∀ j, j ∈ ks → j ∈ s.links.alloc) :
    Ends s ((t.setNlinks k n).leave ok r (k :: ks)) := by
  obtain ⟨t', hput, hundone⟩ := hs.give h ok hnone hn
  unfold State.leave
  rw [hput]
  exact hundone.leave h hks

/-- The entry for a new inode without zones. -/
theorem Spare.add (hs : Spare s t k) (h : Ok s) (hok : Reads s ok) (hd : d ∈ s.links.alloc)
    (hdir : s.links.isDir d = true) (hnone : ∀ q, t.zones.Has k q → t.zones.at k q = 0) {name : Name} (hname : name ≠ []) :
    ∃ t' r e, t.addEntry ok d name k = some (t', r) ∧ Added t t' d e r ∧
      (r = false → Spare s t' k ∧ ∀ q, t'.zones.Has k q → t'.zones.at k q = 0) := by
  obtain ⟨t', r, heq, ha, -⟩ := addEntry_spec (hs.ready h hok hd hdir) hname k
  exact ⟨t', r, _, heq, ha, fun hr => ⟨hs.grown (hs.ne hd) ha.grown (ha.failed hr), ha.grown.at_none (hs.ne hd) hnone⟩⟩

theorem mem_one {A : Finset Nat} (hd : d ∈ A) : ∀ j, j ∈ [d] → j ∈ A := by
  intro j hj
  rw [List.mem_singleton.mp hj]
  exact hd

theorem mem_two {A : Finset Nat} (hd : d ∈ A) (hk : k ∈ A) : ∀ j, j ∈ [d, k] → j ∈ A := by
  intro j hj
  rcases List.mem_cons.mp hj with rfl | hj
  · exact hd
  · exact mem_one hk j hj

/-- The call has returned a file. -/
theorem ends_opened {tty : Bool} (hmode : (t.links.inode k).mode &&& LinkCount.sIfmt ≠ sIfchr) :
    Ends s (t.opened ok tty k) := by
  unfold State.opened
  rw [if_neg fun hand => hmode hand.1]
  exact fun hneg => absurd hneg (lt_irrefl 0)

theorem hold_release (s : State) (k : Nat) : (s.hold k).release k = s := by
  unfold State.hold LinkCount.State.hold State.release
  dsimp only
  rw [Function.update_self, Nat.add_sub_cancel, Function.update_idem, Function.update_eq_self]

/-- An inode that was there is opened, or given back. -/
theorem ends_opened_hold (h : Ok s) (hk : k ∈ s.links.alloc) (tty : Bool) : Ends s ((s.hold k).opened ok tty k) := by
  unfold State.opened
  split_ifs
  · rw [hold_release]
    exact ends_leave h (mem_one hk)
  · exact fun hneg => absurd hneg (lt_irrefl 0)

theorem regular_mode (m n : Nat) : (iRegular ||| (m &&& 0o777 &&& n)) &&& LinkCount.sIfmt ≠ sIfchr := by
  rw [Nat.and_or_distrib_right, LinkCount.perm_sIfmt]
  decide

/-- **`open`** undoes itself. -/
theorem ends_openNamei (h : Ok s) (hu : s.links.Here u) (hok : Reads s ok) (tty : Bool) (path : Path) (flag mode : Nat) :
    Ends s (s.openNamei u ok (fun s k => s.opened ok tty k) path flag mode) := by
  unfold State.openNamei
  dsimp only
  generalize (if flag &&& oTrunc ≠ 0 ∧ flag &&& oAccmode = 0 then flag ||| oWronly else flag) = flag
  rcases dirNamei_spec h hu ok path with heq | ⟨d, hd, hdir, heq⟩
  · rw [heq]
    exact fun _ => h.refl
  rw [heq]
  dsimp only
  have hleave : ∀ r, Ends s (s.leave ok r [d]) := fun r => ends_leave h (mem_one hd)
  by_cases hbase : path.base = []
  · rw [if_pos hbase]
    split_ifs
    · exact ends_opened_hold h hd tty
    · exact hleave _
  rw [if_neg hbase]
  cases hfind : s.find u ok d path.base with
  | none =>
    dsimp only
    split_ifs
    · exact hleave _
    · cases hfree : s.links.freeInode with
      | none => exact hleave _
      | some k =>
        dsimp only
        obtain ⟨hs, hnone⟩ := spare_put h (LinkCount.fresh_newInode hfree u fun x => { x with mode := _ })
          (newInode_setMode s u k _) fun _ _ => rfl
        obtain ⟨t, r, e, hadd, ha, hback⟩ := hs.add h hok hd hdir hnone hbase
        rw [hadd]
        cases r with
        | false =>
          obtain ⟨hs', hnone'⟩ := hback rfl
          refine hs'.leave h hnone' ?_ (mem_one hd)
          rw [(ha.inode k).1, newInode_nlinks]
        | true =>
          obtain ⟨t', hput, hinode⟩ := iput_total (s := t.hold k) ha.grown.good.fair ok d
          dsimp only
          rw [hput, Option.bind_some]
          refine ends_opened ?_
          rw [hinode]
          show (t.links.inode k).mode &&& LinkCount.sIfmt ≠ sIfchr
          rw [(ha.inode k).2, setMode_inode]
          exact regular_mode mode _
    · exact hleave _
  | some i =>
    have hk : (s.links.entry d i).inode ∈ s.links.alloc := h.links.names d hd i (LinkCount.find_spec hfind)
    dsimp only
    generalize (s.links.entry d i).inode = k at hk
    rw [iput_held (h.held hd), Option.bind_some]
    split_ifs
    · exact fun _ => h.refl
    · exact ends_leave h (mem_one hk)
    · obtain ⟨z, htrunc⟩ := truncate_total h.zones.fair ok k
      have htrunc' : truncate ok (s.hold k).zones k = some z := htrunc
      rw [htrunc', Option.bind_some]
      by_cases hchr : (s.links.inode k).mode &&& LinkCount.sIfmt = sIfchr
      · -- a device is not truncated
        have hsame : truncate ok s.zones k = some s.zones := by
          unfold truncate
          rw [if_neg]
          rw [Bool.not_eq_true]
          unfold ZoneMap.State.file
          rw [h.mode k hk]
          have hfmt : ZoneMap.sIfmt = LinkCount.sIfmt := rfl
          rw [hfmt, hchr]
          rfl
        rw [htrunc] at hsame
        cases hsame
        exact ends_opened_hold h hk tty
      · exact ends_opened hchr
    · exact ends_opened_hold h hk tty

theorem ends_sysOpen (h : Ok s) (hu : s.links.Here u) (hok : Reads s ok) (files tty : Bool) (path : Path)
    (flag mode : Nat) : Ends s (s.sysOpen u ok files tty path flag mode) := by
  unfold State.sysOpen
  split_ifs
  · exact ends_openNamei h hu hok tty path flag mode
  · exact fun _ => h.refl

/-- A device is no file. -/
theorem device_file {z : ZoneMap.State} {mode : Nat} (hdev : mode &&& LinkCount.sIfmt = sIfblk ∨ mode &&& LinkCount.sIfmt = sIfchr)
    (f : Nat → Nat) : (z.put k ⟨mode, f⟩).file k = false := by
  unfold ZoneMap.State.file
  rw [put_inode, if_pos rfl]
  have hfmt : ZoneMap.sIfmt = LinkCount.sIfmt := rfl
  dsimp only
  rw [hfmt]
  rcases hdev with heq | heq
  · rw [heq]
    rfl
  · rw [heq]
    rfl

/-- **`sys_mknod`** undoes itself. -/
theorem ends_mknod (h : Ok s) (hu : s.links.Here u) (hok : Reads s ok) (path : Path) (mode dev : Nat) :
    Ends s (s.mknod u ok path mode dev) := by
  unfold State.mknod
  by_cases hsuper : u.super = true
  swap
  · rw [if_neg hsuper]
    exact fun _ => h.refl
  rw [if_pos hsuper]
  rcases dirNamei_spec h hu ok path with heq | ⟨d, hd, hdir, heq⟩
  · rw [heq]
    exact fun _ => h.refl
  rw [heq]
  dsimp only
  have hleave : ∀ r, Ends s (s.leave ok r [d]) := fun r => ends_leave h (mem_one hd)
  by_cases hbase : path.base = []
  · rw [if_pos hbase]
    exact hleave _
  rw [if_neg hbase]
  by_cases hperm : s.links.permission u d mayWrite = true
  swap
  · rw [if_neg hperm]
    exact hleave _
  rw [if_pos hperm]
  cases hfind : s.find u ok d path.base with
  | some i => exact hleave _
  | none =>
    dsimp only
    cases hfree : s.links.freeInode with
    | none => exact hleave _
    | some k =>
      dsimp only
      generalize mode % 65536 = mode
      have hnew : ∃ t, (if mode &&& LinkCount.sIfmt = sIfblk ∨ mode &&& LinkCount.sIfmt = sIfchr then
          ((s.newInode u k).setMode k mode).setZone k (dev % 65536) else (s.newInode u k).setMode k mode) = t ∧
          (t.links.inode k).nlinks = 1 ∧ Spare s t k ∧ ∀ q, t.zones.Has k q → t.zones.at k q = 0 := by
        have hf := LinkCount.fresh_newInode hfree u fun x => { x with mode := mode }
        have hlinks := newInode_nlinks s u k mode
        split_ifs with hdev
        · refine ⟨_, rfl, hlinks, spare_put h hf (x := ⟨mode, Function.update (fun _ => 0) 0 (dev % 65536)⟩) ?_ ?_⟩
          · unfold State.setZone
            dsimp only
            rw [newInode_setMode, put_setZone]
          · intro hfile
            rw [device_file hdev] at hfile
            cases hfile
        · exact ⟨_, rfl, hlinks, spare_put h hf (newInode_setMode s u k mode) fun _ _ => rfl⟩
      obtain ⟨t, heq, hlinks, hs, hnone⟩ := hnew
      rw [heq]
      obtain ⟨t', r, e, hadd, ha, hback⟩ := hs.add h hok hd hdir hnone hbase
      rw [hadd]
      cases r with
      | false =>
        obtain ⟨hs', hnone'⟩ := hback rfl
        dsimp only
        rw [iput_held (hs'.held h hd), Option.bind_some]
        exact hs'.leave h hnone' rfl fun j hj => by cases hj
      | true =>
        refine ends_done ha.grown.good.fair d [k] fun j hj => ?_
        rw [List.mem_singleton.mp hj, (ha.inode k).1, hlinks]
        exact Nat.one_ne_zero

/-- **`sys_link`** undoes itself. -/
theorem ends_link (h : Ok s) (hu : s.links.Here u) (hok : Reads s ok) (old new : Path) :
    Ends s (s.link u ok old new) := by
  unfold State.link
  rcases namei_spec h hu ok old with heq | ⟨k, hk, heq⟩
  · rw [heq]
    exact fun _ => h.refl
  rw [heq]
  dsimp only
  by_cases hkdir : s.links.isDir k = true
  · rw [if_pos hkdir]
    exact ends_leave h (mem_one hk)
  rw [if_neg hkdir]
  rcases dirNamei_spec h hu ok new with heq' | ⟨d, hd, hdir, heq'⟩
  · rw [heq']
    exact ends_leave h (mem_one hk)
  rw [heq']
  dsimp only
  by_cases hbase : new.base = []
  · rw [if_pos hbase]
    exact ends_leave h (mem_two hk hd)
  rw [if_neg hbase]
  by_cases hperm : s.links.permission u d mayWrite = true
  swap
  · rw [if_neg hperm]
    exact ends_leave h (mem_two hd hk)
  rw [if_pos hperm]
  cases hfind : s.find u ok d new.base with
  | some i => exact ends_leave h (mem_two hd hk)
  | none =>
    dsimp only
    obtain ⟨t, r, hadd, ha, -⟩ := addEntry_spec (h.ready hok hd hdir) hbase k
    rw [hadd]
    cases r with
    | false => exact (h.grown ha.grown (ha.failed rfl)).leave h (mem_two hd hk)
    | true =>
      dsimp only
      rw [iput_held (ha.held (h.held hd)), Option.bind_some]
      exact ends_done (t := t.setNlinks k _) ha.grown.good.fair k [] fun j hj => by cases hj

/-! ## sys_mkdir -/

theorem way_valid {b : Nat} (hb : b < maxBlock) {q : Pos} (hq : q ∈ FileData.way b) : q.Valid := by
  have hdata := FileData.dataPos_valid hb
  unfold FileData.way at hq
  unfold dataPos at hdata
  split_ifs at hq hdata
  · rw [List.mem_singleton] at hq
    exact hq ▸ hdata
  · rw [List.mem_cons, List.mem_singleton] at hq
    rcases hq with rfl | rfl
    · exact (by omega : 7 < 9)
    · exact hdata
  · rw [List.mem_cons, List.mem_cons, List.mem_singleton] at hq
    rcases hq with rfl | rfl | rfl
    · exact (by omega : 8 < 9)
    · exact hdata.1
    · exact hdata

/-- The room in a directory is a matter of its entries and its blocks. -/
theorem roomy_congr {left : Nat} (hinode : t.links.inode d = s.links.inode d)
    (hat : ∀ q, q.Valid → t.zones.at d q = s.zones.at d q) : t.Roomy ok d left ↔ s.Roomy ok d left := by
  have hfirst : t.zones.zone d 0 = s.zones.zone d 0 := hat (.zone 0) (by omega : 0 < 9)
  have hdata : ∀ b, b < maxBlock → t.zones.at d (dataPos b) = s.zones.at d (dataPos b) :=
    fun b hb => hat _ (FileData.dataPos_valid hb)
  have hnear : ∀ b, b < maxBlock → (t.near ok d b ↔ s.near ok d b) := by
    intro b hb
    have hindex : index t.zones ok d b = index s.zones ok d b := by
      funext j
      unfold index
      rw [hat]
      rw [List.getD_eq_getElem?_getD]
      cases hj : (FileData.way b)[j]? with
      | none => exact (by omega : 0 < 9)
      | some q => exact way_valid hb (List.mem_of_getElem? hj)
    unfold State.near
    rw [hindex]
  have hneeds : ∀ b, b < maxBlock → FileData.needs t.zones d (FileData.way b) = FileData.needs s.zones d (FileData.way b) :=
    fun b hb => FileData.needs_congr fun q hq => hat q (way_valid hb hq)
  unfold State.Roomy State.RoomFrom
  rw [hfirst]
  refine and_congr_right fun _ => and_congr_right fun _ => exists_congr fun c => and_congr_right fun _ =>
    and_congr_right fun hc => ?_
  unfold State.there State.opens
  rw [hnear c hc, hneeds c hc, hdata c hc, hinode]
  refine and_congr_left fun _ => forall_congr' fun a => forall_congr' fun _ => forall_congr' fun hac => ?_
  rw [hnear a (hac.trans hc), hdata a (hac.trans hc)]

/-- A zone that is given back twice: the second time panics. -/
theorem truncate_freed {z : ZoneMap.State} (ok : Nat → Bool) (hfile : z.file k = true) (hne : z.zone k 0 ≠ 0)
    (hclear : z.bit (z.zone k 0) ∉ z.zmap) : truncate ok z k = none := by
  have hfree : z.freeBlock (z.zone k 0) = none := by
    unfold ZoneMap.State.freeBlock
    rw [if_neg hclear]
    split_ifs <;> rfl
  have hdirect : z.freeDirect k (List.range 7) = none := by
    have hrange : List.range 7 = 0 :: List.range' 1 6 := rfl
    rw [hrange, FileData.freeDirect_cons, if_neg hne, hfree]
    rfl
  unfold truncate
  rw [if_pos hfile, hdirect]
  rfl

/-- The new directory, with its block. -/
def State.newDir (s : State) (u : User) (d k y mode : Nat) : State :=
  ((({ s.newInode u k with zones := (s.newInode u k).zones.take y } : State).setZone k y).setDots k d).setMode k mode

theorem newDir_zones (s : State) (u : User) (d k y mode : Nat) :
    (s.newDir u d k y mode).zones = ((s.zones.put k ⟨mode, fun _ => 0⟩).take y).store k (.zone 0) y := by
  have hset : ∀ m, ((s.zones.put k ⟨m, fun _ => 0⟩).take y).setZone k 0 y =
      (s.zones.take y).put k ⟨m, Function.update (fun _ => 0) 0 y⟩ := fun m => put_setZone (s.zones.take y) k y _
  show (((s.zones.put k ⟨0, fun _ => 0⟩).take y).setZone k 0 y).put k
    { (((s.zones.put k ⟨0, fun _ => 0⟩).take y).setZone k 0 y).inode k with mode := mode } =
      ((s.zones.put k ⟨mode, fun _ => 0⟩).take y).setZone k 0 y
  rw [hset, hset, put_inode, if_pos rfl, ZoneMap.put_put]

theorem newDir_links (s : State) (u : User) (d k y mode : Nat) : (s.newDir u d k y mode).links =
    (s.links.newInode u k).set k ⟨mode, u.euid, u.egid, 2, [⟨k, dot⟩, ⟨d, dotdot⟩]⟩ := by
  have hset : ∀ x y, ((s.newInode u k).links.set k x).set k y = (s.newInode u k).links.set k y := by
    intro x y
    unfold LinkCount.State.set
    dsimp only
    rw [Function.update_idem]
  unfold State.newDir State.setMode State.setDots State.setZone
  dsimp only
  rw [hset, LinkCount.set_inode, if_pos rfl, newInode_inode]
  rfl

/-- A new inode with a zone. -/
theorem spare_store (h : Ok s) (hf : Fresh s.links t.links k) {x : ZoneMap.Inode} {y : Nat} (hy : Free s.zones y)
    (hx : ∀ j, x.zone j = 0) (hfile : (s.zones.put k x).file k = true)
    (hzones : t.zones = ((s.zones.put k x).take y).store k (.zone 0) y) :
    Spare s t k ∧ t.zones.file k = true ∧ t.zones.zone k 0 = y ∧
      ∀ m q, m ≠ k → s.zones.Has m q → t.zones.at m q = s.zones.at m q := by
  obtain ⟨hs, hnone⟩ := spare_put (t := ⟨t.links, s.zones.put k x⟩) h hf rfl fun _ => hx
  have hp : (s.zones.put k x).Has k (.zone 0) := ⟨hfile, (by omega : 0 < 9)⟩
  have hup : ∀ q b, (Pos.zone 0).up = some (q, b) → (s.zones.put k x).at k q ≠ 0 := fun _ _ hr => by cases hr
  replace hy : Free (s.zones.put k x) y := ⟨hy.range, hy.clear⟩
  obtain ⟨hgood, hat, hsame⟩ := ZoneMap.good_store hs.good hp hup (hnone _ hp) hy
  rw [← hzones] at hgood hat hsame
  have hother : ∀ m q, m ≠ k → s.zones.Has m q → t.zones.at m q = s.zones.at m q := by
    intro m q hm hq
    rw [hzones, ZoneMap.at_store hs.good hp hup (hnone _ hp) hy (hs.has hm hq), if_neg fun hand => hm hand.1]
    exact put_at hm x q
  refine ⟨⟨hf, hgood, ?_, fun m hm => ?_, fun m q hm hq _ => hother m q hm hq⟩, (hsame k).trans hfile, hat, hother⟩
  · rw [hzones]
    exact ⟨rfl, rfl, Finset.subset_insert ..⟩
  · rw [hzones]
    exact (FileData.setZone_mode _ k 0 y m).trans (hs.mode m hm)

/-- The zone of the new inode is freed, and then the inode is given back. -/
theorem Spare.panics (hs : Spare s t k) (h : Ok s) (hfile : t.zones.file k = true) (hne : t.zones.zone k 0 ≠ 0)
    (r : Int) : ((t.freeBlock (t.zones.zone k 0)).bind fun t => (t.setNlinks k 0).leave ok r [k]) = none := by
  have hhas : t.zones.Has k (.zone 0) := ⟨hfile, (by omega : 0 < 9)⟩
  obtain ⟨hlow, hhigh⟩ := hs.good.range k _ hhas hne
  have hset := (hs.good.exact _ hlow hhigh).mpr ⟨k, _, hhas, rfl⟩
  have hfree : t.freeBlock (t.zones.zone k 0) =
      some { t with zones := { t.zones with zmap := t.zones.zmap.erase (t.zones.bit (t.zones.zone k 0)) } } := by
    unfold State.freeBlock ZoneMap.State.freeBlock
    replace hlow : t.zones.firstdatazone ≤ t.zones.zone k 0 := hlow
    replace hhigh : t.zones.zone k 0 < t.zones.nzones := hhigh
    replace hset : t.zones.bit (t.zones.zone k 0) ∈ t.zones.zmap := hset
    rw [if_neg (by omega), if_pos hset]
    rfl
  rw [hfree, Option.bind_some]
  have hrefs : t.links.refs k = 0 := by
    rw [hs.fresh.refs]
    by_contra hne
    exact hs.fresh.unused.1 (h.links.refs k hne)
  have hlinks : ((t.links.setNlinks k 0).inode k).nlinks = 0 := by
    unfold LinkCount.State.setNlinks
    rw [LinkCount.set_inode, if_pos rfl]
  have htrunc := truncate_freed (z := { t.zones with zmap := t.zones.zmap.erase (t.zones.bit (t.zones.zone k 0)) }) ok hfile
    hne (Finset.notMem_erase _ _)
  unfold State.leave State.iput State.setNlinks
  dsimp only
  rw [if_pos ⟨hlinks, hrefs⟩, htrunc]
  rfl

/-- **A directory is made**, or nothing is left of it, unless the last zone that the entry would
take is the one that the directory has got. -/
theorem ends_makeDir_iff (h : Ok s) (hok : Reads s ok) (hd : d ∈ s.links.alloc) (hdir : s.links.isDir d = true)
    {name : Name} (hname : name ≠ []) (hfree : s.links.freeInode = some k) (mode : Nat) :
    Ends s (s.makeDir u ok d name mode k) ↔ (room s.zones ≠ 0 → s.Roomy ok d (room s.zones - 1)) := by
  have hf := Fresh.plain hfree u
  obtain ⟨hs, hnone⟩ := spare_put (t := s.newInode u k) h hf rfl fun _ _ => rfl
  have hroom : room (s.newInode u k).zones = room s.zones := FileData.room_congr rfl rfl rfl rfl
  unfold State.makeDir
  dsimp only
  -- with a zone left, the directory takes it, and may be the one that needs another
  by_cases hleft : room s.zones = 0
  · -- no zone for the directory
    obtain ⟨z, hnew, -, hinode, hblock, hmarks⟩ := FileData.newBlock_full hs.good.fair (hroom.trans hleft)
    have hgood : Good z := by
      rcases ZoneMap.newBlock_spec hs.good with ⟨z', hnew', hgood, -⟩ | ⟨y, hy, -, hnew'⟩
      · rw [hnew] at hnew'
        cases hnew'
        exact hgood
      · rw [hnew] at hnew'
        cases hnew'
        exact absurd rfl hy
    have hat := (ZoneMap.at_congr ⟨hinode, hblock⟩).1
    have hzone : z.zone k 0 = 0 := by
      unfold ZoneMap.State.zone
      rw [hinode]
      exact congrFun (congrArg ZoneMap.Inode.zone ((put_inode ..).trans (if_pos rfl))) 0
    have hself : ({ s.newInode u k with zones := z } : State).setZone k 0 = { s.newInode u k with zones := z } := by
      unfold State.setZone
      rw [ZoneMap.setZone_self hzone]
    have hs' : Spare s { s.newInode u k with zones := z } k := by
      refine ⟨hf, hgood, hs.marks.trans hmarks, fun m hm => ?_, fun m q hm hq hne => ?_⟩
      · rw [← hs.mode m hm, ← hinode]
      · exact (hat m q).trans (hs.kept m q hm hq hne)
    have hnone' : ∀ q, z.Has k q → z.at k q = 0 := by
      intro q hq
      refine (hat k q).trans (hnone q ⟨?_, hq.2⟩)
      exact (FileData.file_congr (by rw [hinode])).symm.trans hq.1
    rw [hnew]
    dsimp only
    rw [hself, if_pos rfl, iput_held (hs'.held h hd), Option.bind_some]
    refine iff_of_true (hs'.leave h hnone' ?_ fun j hj => by cases hj) fun hne => absurd hleft hne
    have hone : ((s.newInode u k).links.inode k).nlinks = 1 := by rw [newInode_inode]
    rw [hone]
  · obtain ⟨y, hy, hz, hnew, htake⟩ := FileData.newBlock_room hs.good.fair (hroom.trans_ne hleft)
    rw [hnew]
    dsimp only
    rw [if_neg hy, if_pos (hok y (hs.marks.free hz))]
    generalize hmode : iDirectory ||| (mode &&& 0o777 &&& (0o777 ^^^ (u.umask &&& 0o777))) = m
    have hisDir : LinkCount.isDir m = true := hmode ▸ LinkCount.isDir_iDirectory mode _
    have hdef : ((({ s.newInode u k with zones := (s.newInode u k).zones.take y } : State).setZone k y).setDots k d).setMode k m
      = s.newDir u d k y m := rfl
    rw [hdef]
    have hzones := newDir_zones s u d k y m
    have hlinks := newDir_links s u d k y m
    have hfresh : Fresh s.links (s.newDir u d k y m).links k := by
      rw [hlinks]
      exact LinkCount.fresh_newInode hfree u fun _ => ⟨m, u.euid, u.egid, 2, _⟩
    have hroom' : room (s.newDir u d k y m).zones + 1 = room s.zones := by
      rw [hzones, ← hroom, ← htake]
      exact congrArg (· + 1) (FileData.room_congr rfl rfl rfl rfl)
    have hfile : (s.zones.put k ⟨m, fun _ => 0⟩).file k = true := by
      unfold ZoneMap.State.file
      rw [put_inode, if_pos rfl, Bool.or_eq_true]
      exact Or.inr hisDir
    obtain ⟨hs', hfile', hzone, hother⟩ := spare_store h hfresh (hs.marks.free hz) (fun _ => rfl) hfile hzones
    have hdk := hs'.ne hd
    obtain ⟨t, r, hadd, ha, hr⟩ := addEntry_spec (hs'.ready h hok hd hdir) hname k
    have hroomy : (s.newDir u d k y m).Roomy ok d (room (s.newDir u d k y m).zones) ↔ s.Roomy ok d (room s.zones - 1) := by
      have hless : room (s.newDir u d k y m).zones = room s.zones - 1 := by omega
      rw [hless]
      exact roomy_congr (hfresh.inode d hdk) fun q hq => hother d q hdk ⟨h.file hd hdir, hq⟩
    rw [hadd]
    cases r with
    | false =>
      refine iff_of_false ?_ fun hall => Bool.false_ne_true (hr.mpr (hroomy.mpr (hall hleft)))
      have hs'' := hs'.grown hdk ha.grown (ha.failed rfl)
      have hat : t.zones.zone k 0 = y := by
        have hother := ha.grown.others k (.zone 0) ⟨hfile', (by omega : 0 < 9)⟩ (Ne.symm hdk)
        exact Eq.trans hother hzone
      dsimp only
      rw [iput_held (hs''.held h hd), Option.bind_some, hs''.panics h _ (hat.trans_ne hy)]
      · exact fun hends => hends
      · exact (FileData.file_congr (ha.grown.mode k)).trans hfile'
    | true =>
      refine iff_of_true ?_ fun _ => hroomy.mp (hr.mp rfl)
      refine ends_done (t := t.setNlinks d _) ha.grown.good.fair d [k] fun j hj => ?_
      rw [List.mem_singleton.mp hj]
      unfold State.setNlinks LinkCount.State.setNlinks
      dsimp only
      rw [LinkCount.set_inode, if_neg (Ne.symm hdk), (ha.inode k).1, hlinks, LinkCount.set_inode, if_pos rfl]
      exact (by decide : 2 ≠ 0)

/-- **`sys_mkdir`** undoes itself, unless it is crowded. -/
theorem ends_mkdir_iff (h : Ok s) (hu : s.links.Here u) (hok : Reads s ok) (path : Path) (mode : Nat) :
    Ends s (s.mkdir u ok path mode) ↔ ¬ Crowded s u ok (.sysMkdir path mode) := by
  unfold State.mkdir
  by_cases hsuper : u.super = true
  swap
  · rw [if_neg hsuper]
    exact iff_of_true (fun _ => h.refl) fun hcrowded => hsuper hcrowded.1
  rw [if_pos hsuper]
  rcases dirNamei_spec h hu ok path with heq | ⟨d, hd, hdir, heq⟩
  · rw [heq]
    refine iff_of_true (fun _ => h.refl) fun hcrowded => ?_
    obtain ⟨-, d, hd, -⟩ := hcrowded
    rw [heq] at hd
    cases hd
  rw [heq]
  dsimp only
  have hleave : ∀ r, Ends s (s.leave ok r [d]) := fun r => ends_leave h (mem_one hd)
  have hcrowded : Crowded s u ok (.sysMkdir path mode) ↔ path.base ≠ [] ∧ s.links.permission u d mayWrite = true ∧
      s.find u ok d path.base = none ∧ s.links.freeInode ≠ none ∧ room s.zones ≠ 0 ∧
      ¬ s.Roomy ok d (room s.zones - 1) := by
    constructor
    · rintro ⟨-, d', hd', hrest⟩
      rw [heq] at hd'
      cases hd'
      exact hrest
    · exact fun hrest => ⟨hsuper, d, by rw [heq], hrest⟩
  rw [hcrowded]
  by_cases hbase : path.base = []
  · rw [if_pos hbase]
    exact iff_of_true (hleave _) fun hall => hall.1 hbase
  rw [if_neg hbase]
  by_cases hperm : s.links.permission u d mayWrite = true
  swap
  · rw [if_neg hperm]
    exact iff_of_true (hleave _) fun hall => hperm hall.2.1
  rw [if_pos hperm]
  cases hfind : s.find u ok d path.base with
  | some i =>
    refine iff_of_true (hleave _) fun hall => ?_
    have hnone := hall.2.2.1
    cases hnone
  | none =>
    dsimp only
    cases hfree : s.links.freeInode with
    | none => exact iff_of_true (hleave _) fun hall => hall.2.2.2.1 rfl
    | some k =>
      dsimp only
      rw [ends_makeDir_iff h hok hd hdir hbase hfree mode]
      constructor
      · rintro hroomy ⟨-, -, -, -, hleft, hnot⟩
        exact hnot (hroomy hleft)
      · intro hnot hleft
        by_contra hfull
        exact hnot ⟨hbase, hperm, rfl, Option.some_ne_none k, hleft, hfull⟩

/-- **A creation that fails undoes itself**, and none panics, but for `sys_mkdir` where the last
zone that it needs is the one that it has taken: no inode, zone or entry is left behind. -/
theorem undoes_iff (h : Ok s) (hu : s.links.Here u) (io : Nat → Bool) (c : Call) :
    Undoes s u io c ↔ ¬ Crowded s u (s.reads io) c := by
  have hok := reads_free s io
  cases c with
  | sysOpen files tty path flag mode => exact iff_of_true (ends_sysOpen h hu hok files tty path flag mode) fun hfalse => hfalse
  | sysMknod path mode dev => exact iff_of_true (ends_mknod h hu hok path mode dev) fun hfalse => hfalse
  | sysMkdir path mode => exact ends_mkdir_iff h hu hok path mode
  | sysLink old new => exact iff_of_true (ends_link h hu hok old new) fun hfalse => hfalse

/-! ## A directory that is full -/

/-- The root directory is one block, whose entries are all in use; `left` zones are free. -/
def packed (left : Nat) : State where
  links := { LinkCount.crowd 62 with ninodes := 3 }
  zones := {
    firstdatazone := 5
    nzones        := 6 + left
    bits          := 8192
    zmap          := {0, 1}
    inode n       := ⟨if n = 1 then 0o040755 else if n = 2 then 0o100644 else 0, fun k => if n = 1 ∧ k = 0 then 5 else 0⟩
    block _ _     := 0 }

theorem packed_at {left n : Nat} {q : Pos} (hne : (packed left).zones.at n q ≠ 0) :
    n = 1 ∧ q = .zone 0 ∧ (packed left).zones.at n q = 5 := FileData.at_one (fun _ _ => rfl) hne

theorem ok_packed {left : Nat} (hleft : left < 8192) : Ok (packed left) := by
  have hgood : Good (packed left).zones := by
    refine ⟨(by decide : 1 ≤ 5), (by decide : 0 ∈ ({0, 1} : Finset Nat)), fun n q hq hne => ?_,
      fun n q m r hq hr hne heq => ?_, fun z hz hz' => ?_⟩
    · rw [(packed_at hne).2.2]
      exact ⟨le_refl 5, Nat.lt_add_right left (by decide : 5 < 6)⟩
    · obtain ⟨rfl, rfl, -⟩ := packed_at hne
      obtain ⟨rfl, rfl, -⟩ := packed_at (heq ▸ hne)
      exact ⟨rfl, rfl⟩
    · have hlow : 5 ≤ z := hz
      constructor
      · intro hset
        have hbit : z - 4 ∈ ({0, 1} : Finset Nat) := hset
        rw [Finset.mem_insert, Finset.mem_singleton] at hbit
        have hz5 : z = 5 := by omega
        have hfile : (packed left).zones.file 1 = true := by
          show (0o040755 &&& ZoneMap.sIfmt == ZoneMap.iRegular || 0o040755 &&& ZoneMap.sIfmt == ZoneMap.iDirectory) = true
          decide
        exact ⟨1, .zone 0, ⟨hfile, (by omega : 0 < 9)⟩, hz5.symm⟩
      · rintro ⟨n, q, hq, heq⟩
        have hz5 : z = 5 := by
          rw [← heq]
          exact (packed_at (by omega)).2.2
        rw [hz5]
        exact (by decide : 1 ∈ ({0, 1} : Finset Nat))
  have hmem : ∀ k, k ∈ (packed left).links.alloc ↔ k = 1 ∨ k = 2 := by
    intro k
    show k ∈ ({1, 2} : Finset Nat) ↔ _
    rw [Finset.mem_insert, Finset.mem_singleton]
  refine ⟨(LinkCount.good_crowd (by decide) (by decide)).congr rfl (fun _ _ => rfl) rfl, hgood, ?_, fun k hk => ?_,
    fun k hk => ?_, fun d hd => ?_, fun d hd hdir i hi => ?_⟩
  · exact (by omega : 6 + left < 65536)
  · rcases (hmem k).mp hk with rfl | rfl <;> rfl
  · rw [hmem, not_or] at hk
    exact (if_neg hk.1).trans (if_neg hk.2)
  · rcases (hmem d).mp hd with rfl | rfl
    · exact (by decide +kernel : (LinkCount.crowdEntries 62).length ≤ maxBlock * dirEntriesPerBlock)
    · exact Nat.zero_le _
  · have hd1 : d = 1 := by
      by_contra hne
      exact hi (LinkCount.crowd_file 62 hne i)
    subst hd1
    have hlen : i < 64 := by
      have hentry := LinkCount.crowd_entry 62 i
      by_contra hge
      rw [if_neg (by omega), if_neg (by omega)] at hentry
      exact hi hentry
    have hblock : i / dirEntriesPerBlock = 0 := Nat.div_eq_of_lt hlen
    rw [hblock]
    exact (by decide : 5 ≠ 0)

theorem here_packed (left : Nat) : (packed left).links.Here LinkCount.superUser :=
  ⟨(by decide : 2 ≠ 0), (by decide : 2 ≠ 0)⟩

theorem not_crowded (hroom : room s.zones = 0) (c : Call) : ¬ Crowded s u ok c := by
  intro hcrowded
  cases c with
  | sysMkdir path mode =>
    obtain ⟨-, d, -, -, -, -, -, hleft, -⟩ := hcrowded
    exact hleft hroom
  | sysOpen files tty path flag mode => exact hcrowded
  | sysMknod path mode dev => exact hcrowded
  | sysLink old new => exact hcrowded

/-- One zone is left. The new directory takes it, and loses it twice. -/
theorem mkdir_panics : Ok (packed 1) ∧ (packed 1).links.Here LinkCount.superUser ∧
    ¬ Undoes (packed 1) LinkCount.superUser (fun _ => true) (.sysMkdir LinkCount.newName 0o755) := by
  have hnone : ((packed 1).run LinkCount.superUser (fun _ => true) (.sysMkdir LinkCount.newName 0o755)).isNone = true := by
    decide +kernel
  refine ⟨ok_packed (by decide), here_packed 1, ?_⟩
  unfold Undoes
  rw [Option.isNone_iff_eq_none.mp hnone]
  exact fun hfalse => hfalse

/-- No zone is left. -/
theorem undoes_packed :
    ((packed 0).run LinkCount.superUser (fun _ => true) (.sysMkdir LinkCount.newName 0o755)).map (·.2) = some (-enospc) ∧
      Undoes (packed 0) LinkCount.superUser (fun _ => true) (.sysMkdir LinkCount.newName 0o755) := by
  have hroom : room (packed 0).zones = 0 := by
    unfold room
    rw [Finset.card_eq_zero, Finset.eq_empty_iff_forall_notMem]
    intro j hj
    obtain ⟨-, hclear, hlt⟩ := FileData.mem_freeBits.mp hj
    replace hclear : j ∉ ({0, 1} : Finset Nat) := hclear
    replace hlt : j + 4 < 6 := hlt
    rw [Finset.mem_insert, Finset.mem_singleton] at hclear
    omega
  have hok : Ok (packed 0) := ok_packed (by decide)
  refine ⟨by decide +kernel, ?_⟩
  rw [undoes_iff hok (here_packed 0)]
  exact not_crowded hroom _

end Linux011.Fs.Creation
