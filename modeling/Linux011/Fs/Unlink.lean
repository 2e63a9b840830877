import Linux011.Lib.RefCount
import Linux011.Fs.BlockDev
import Linux011.Fs.Names

/-!
# Names and inodes — `sys_unlink` beside `sys_open` and `sys_close`

`sys_unlink` looks a name up, takes the inode with `iget`, clears the entry and
drops a link; `iput` frees an inode whose last link is gone. `open_namei` copies
the inode number out of the entry and takes the inode later. All of them sleep on
the way, and none of them locks the directory.

An inode is known by its device and its number. Its record is the one in core, or
the one on disk when no task has it; of an inode that has been freed the disk may
show anything. `decs`, `clears` and `freeing` are for the specification only.

* `links_clear`, `links_unlink`, `links_free` — the three steps that matter;
* `put_spec`, `get_spec`, `find_spec` — the procedures, under any interleaving;
* `unlink_once` — a link is dropped for a cleared entry only, and no entry is left
  of an inode that was freed, as long as nobody clears an entry that has changed;
* `unlink_twice` — two `sys_unlink` that do.
-/

namespace Linux011.Fs.Unlink

open Linux011.Lib Linux011.Lib.Kernel
open Linux011.Fs.Names (Name Entry Dir match_ nameLen dirEntriesPerBlock dot dotdot)

/-! ## The state -/

/-- Device and inode number. -/
abbrev Key := Nat × Nat

structure Inode where
  nlinks : Nat
  count  : Nat
  dirt   : Bool
  deriving DecidableEq, Repr

/-- What `i_mode` says of the kind of an inode. -/
inductive Mode
  | reg
  | dir
  | blk
  | other
  deriving DecidableEq, Repr

/-- Why the machine was stopped: the panic of `iput`, the first two of
`free_inode`, or another one. -/
inductive Stop
  | freeFree
  | freeInode
  | freeLinks
  | other
  deriving DecidableEq, Repr

structure State where
  dir     : Key → Dir
  inode   : Key → Inode
  mode    : Key → Mode
  /-- The root mounted on the inode, and the directory a mounted root covers. -/
  mount   : Key → Option Key
  covered : Key → Option Key
  /-- The bit of the inode is clear in the map of its device. -/
  freed   : Key → Bool
  /-- The files of each task; a slot is taken before its inode is known. -/
  filp    : Nat → Nat → Option (Option Key)
  stopped : Option Stop
  /-- An `iput` has seen the last link gone and has not freed the inode yet. -/
  freeing : Key → Bool
  decs    : Key → Nat
  clears  : Key → Nat

/-- The inode an entry of a directory names. -/
def State.names (s : State) (e : Key × Nat) : Option Key :=
  if e.2 < (s.dir e.1).size ∧ ((s.dir e.1).slot e.2).inode ≠ 0 then
    some (e.1.1, ((s.dir e.1).slot e.2).inode)
  else none

/-- The links an `iget` finds. Of a freed inode nobody has in core, they are those
`nlinks` that the copy on disk shows. -/
def State.links (s : State) (k : Key) (nlinks : Nat) : Nat :=
  if s.freed k ∧ (s.inode k).count = 0 then nlinks % 256 else (s.inode k).nlinks

/-- `i_count++` in `iget`. -/
def State.grab (s : State) (k : Key) (nlinks : Nat) : State :=
  let x := s.inode k
  let x := if s.freed k ∧ x.count = 0 then ⟨nlinks % 256, x.count, false⟩ else x
  { s with inode := Function.update s.inode k { x with count := x.count + 1 } }

/-- `i_count--`. -/
def State.drop (s : State) (k : Key) : State :=
  { s with inode := Function.update s.inode k { s.inode k with count := (s.inode k).count - 1 } }

/-- The entry is cleared; an inode without links has got one before. -/
def State.clear (s : State) (d : Key) (i : Nat) (k : Key) : State :=
  let D := s.dir d
  { s with
    dir := Function.update s.dir d
      { D with slot := Function.update D.slot i { D.slot i with inode := 0 } }
    inode := if (s.inode k).nlinks = 0 then
        Function.update s.inode k { s.inode k with nlinks := 1 }
      else s.inode
    clears := match s.names (d, i) with
      | some v => Function.update s.clears v (s.clears v + 1)
      | none => s.clears }

/-- `i_nlinks--`, in an unsigned char. -/
def State.unlink (s : State) (k : Key) : State :=
  { s with
    inode := Function.update s.inode k
      { s.inode k with nlinks := ((s.inode k).nlinks + 255) % 256, dirt := true }
    decs := Function.update s.decs k (s.decs k + 1) }

/-- The bit is cleared and the inode in core wiped out. -/
def State.free (s : State) (k : Key) : State :=
  { s with
    inode := Function.update s.inode k ⟨0, 0, false⟩
    freed := Function.update s.freed k true
    freeing := Function.update s.freeing k false }

/-! ## The code -/

/-- What a reference is taken for: as the directory of a path, or as the file of
`sys_open` or of `sys_unlink`. -/
inductive Use
  | dir
  | opened
  | unlinked
  deriving DecidableEq

/-- A reference taken by `iget`, with the links the disk shows, and an entry
cleared. -/
inductive Tag
  | grab (k : Key) (use : Use) (nlinks : Nat)
  | clear (d : Key) (i : Nat) (k : Key)
  deriving DecidableEq

/-- The loops of `find_entry`, `iget` and `iput`. -/
inductive Proc
  | find (d : Key) (name : Name) (i entries : Nat)
  | get (k : Key) (use : Use)
  | put (k : Key)

/-- The slot and the inode number of an entry, or the inode. -/
abbrev Ret := Option (Nat × Nat)

abbrev M := Code State Tag Proc Ret

def stop {α : Type} (why : Stop) : M α := do
  Code.modify fun s => { s with stopped := some why }
  Code.panic

/-- `free_inode`. The device, the number and the map are asked of the world. -/
def freeInode (k : Key) : M Unit := do
  let x ← Code.read fun s => s.inode k
  if x.count > 1 then stop .freeInode
  else if x.nlinks ≠ 0 then stop .freeLinks
  else
    let ok ← Code.ask
    if ok = 0 then stop .other
    else Code.modify fun s => s.free k

/-- A round of `iput`, from `repeat` on. -/
def putBody (k : Key) : M Ret := do
  let x ← Code.read fun s => s.inode k
  if x.count > 1 then do
    Code.modify fun s => s.drop k
    return none
  else if x.nlinks = 0 then do
    let mode ← Code.read fun s => s.mode k
    -- `truncate` has something to do for files and directories only
    if mode = .reg ∨ mode = .dir then do
      Code.modify fun s => { s with freeing := Function.update s.freeing k true }
      Code.sleep
      freeInode k
      return none
    else do
      freeInode k
      return none
  else if x.dirt then do
    -- `write_inode`: it is clean when the block has been read
    Code.sleep
    Code.modify fun s =>
      { s with inode := Function.update s.inode k { s.inode k with dirt := false } }
    Code.sleep
    Code.call (.put k)
  else do
    Code.modify fun s => s.drop k
    return none

/-- `iput` of an inode that is no pipe, once it is not locked. A block device is
synced. -/
def iputUnlocked (k : Key) : M Unit := do
  let x ← Code.read fun s => s.inode k
  if x.count = 0 then stop .freeFree
  else
    let mode ← Code.read fun s => s.mode k
    Code.when (mode = .blk) Code.sleep
    let _ ← Code.call (.put k)

/-- `iput`, which waits for the inode. -/
def iput (k : Key) : M Unit := do
  Code.sleep
  iputUnlocked k

/-- `iget` once it has an empty inode: the inode is waited for, and taken if it is
not mounted on. A root mounted on it is taken instead. -/
def getBody (k : Key) (use : Use) : M Ret := do
  Code.sleep
  let nlinks ← Code.ask
  let count ← Code.read fun s => (s.inode k).count
  Code.atom (.grab k use nlinks) fun s => s.grab k nlinks
  let root ← Code.read fun s => s.mount k
  match root with
  | some r => do
    iput k
    Code.call (.get r use)
  | none => do
    -- `read_inode`, which only an inode that nobody has can need
    Code.when (count = 0) Code.sleep
    return some k

/-- `iget`. `get_empty_inode` sleeps, and stops the machine when every inode is
in use. -/
def iget (k : Key) (use : Use) : M Key := do
  Code.sleep
  let empty ← Code.ask
  if empty = 0 then stop .other
  else
    let r ← Code.call (.get k use)
    return r.getD k

/-- `permission`: not even root may use a deleted file. The rest is asked of the
world. -/
def permission (k : Key) : M Bool := do
  let ok ← Code.ask
  let x ← Code.read fun s => s.inode k
  return x.nlinks ≠ 0 ∧ ok ≠ 0

/-- A read of the next block, which may sleep and may fail, when the scan is at
the first entry of one. -/
def nextBlock (i : Nat) : M Nat :=
  if i % dirEntriesPerBlock = 0 then do Code.sleep; Code.ask else pure 1

/-- A round of the loop of `find_entry`. -/
def findBody (d : Key) (name : Name) (i entries : Nat) : M Ret := do
  if i < entries then
    let ok ← nextBlock i
    if ok = 0 then
      if i = 0 then return none
      else Code.call (.find d name (i + dirEntriesPerBlock) entries)
    else
      let de ← Code.read fun s => (s.dir d).slot i
      if match_ name de then return some (i, de.inode)
      else Code.call (.find d name (i + 1) entries)
  else
    return none

/-- `find_entry`, for a task with the given root: the directory, which is exchanged
when `..` leads over a mount point, and what was found. -/
def findEntry (root d : Key) (name : Name) : M (Key × Ret) := do
  let name := name.take nameLen
  let entries ← Code.read fun s => (s.dir d).size
  if name = [] then return (d, none)
  else if name = dotdot ∧ d = root then
    let r ← Code.call (.find d dot 0 entries)
    return (d, r)
  else
    let covered ← Code.read fun s => s.covered d
    match covered with
    | some o =>
      if name = dotdot then do
        iput d
        Code.atom (.grab o .dir 0) fun s => s.grab o 0
        let r ← Code.call (.find o name 0 entries)
        return (o, r)
      else
        let r ← Code.call (.find d name 0 entries)
        return (d, r)
    | none =>
      let r ← Code.call (.find d name 0 entries)
      return (d, r)

/-- The end of `dir_namei`: the last directory of the path is taken, and may be
searched. Nothing sleeps from `iget` on, so `iput` does not wait for the inode. -/
def dirNamei (d : Key) (use : Use) : M (Option Key) := do
  let d ← iget d use
  let ok ← permission d
  if ok then return some d
  else do
    iputUnlocked d
    return none

/-- `sys_unlink` of a name in the directory that `dir_namei` leads to. What the
permissions and the sticky bit say is asked of the world. -/
def sysUnlink (root d : Key) (name : Name) : M Unit := do
  let dir ← dirNamei d .dir
  match dir with
  | none => return ()
  | some d =>
    if name = [] then iput d
    else
      let ok ← permission d
      if !ok then iput d
      else
        let f ← findEntry root d name
        match f.2 with
        | none => iput f.1
        | some e => do
          let k ← iget (f.1.1, e.2) .unlinked
          let sticky ← Code.ask
          if sticky ≠ 0 then do
            iput f.1
            iput k
          else
            let mode ← Code.read fun s => s.mode k
            if mode = .dir then do
              iput k
              iput f.1
            else do
              Code.atom (.clear f.1 e.1 k) fun s => s.clear f.1 e.1 k
              -- `brelse` waits for the buffer
              Code.sleep
              Code.modify fun s => s.unlink k
              iput k
              iput f.1

def nrOpen : Nat := 20

/-- The lowest free file descriptor. -/
def freeFd (filp : Nat → Option (Option Key)) : Option Nat :=
  (List.range nrOpen).find? fun fd => (filp fd).isNone

def State.setFilp (s : State) (t fd : Nat) (f : Option (Option Key)) : State :=
  { s with filp := Function.update s.filp t (Function.update (s.filp t) fd f) }

/-- `open_namei` without `O_CREAT`. The flags are asked of the world. -/
def openNamei (root d : Key) (name : Name) : M (Option Key) := do
  -- of a path that ends in a slash, the directory itself is opened
  let dir ← dirNamei d (if name = [] then .opened else .dir)
  match dir with
  | none => return none
  | some d =>
    if name = [] then
      let flags ← Code.ask
      if flags = 0 then return some d
      else do
        iput d
        return none
    else
      let f ← findEntry root d name
      match f.2 with
      | none => do
        iput f.1
        return none
      | some e => do
        iput f.1
        let excl ← Code.ask
        if excl ≠ 0 then return none
        else
          let k ← iget (f.1.1, e.2) .opened
          let ok ← permission k
          if ok then do
            -- `truncate`, with `O_TRUNC`
            Code.sleep
            return some k
          else do
            iputUnlocked k
            return none

/-- `sys_open` without `O_CREAT`, by task `t`. -/
def sysOpen (t : Nat) (root d : Key) (name : Name) : M Unit := do
  let fd ← Code.read fun s => freeFd (s.filp t)
  let file ← Code.ask
  match fd with
  | none => return ()
  | some fd =>
    -- `file_table` may be full
    if file = 0 then return ()
    else
      Code.modify fun s => s.setFilp t fd (some none)
      let k ← openNamei root d name
      match k with
      | none => Code.modify fun s => s.setFilp t fd none
      | some k =>
        -- a terminal that may not be opened
        let tty ← Code.ask
        if tty ≠ 0 then do
          iput k
          Code.modify fun s => s.setFilp t fd none
        else
          Code.modify fun s => s.setFilp t fd (some (some k))

/-- `sys_close`, of a file that is open once. -/
def sysClose (t fd : Nat) : M Unit := do
  let f ← Code.read fun s => s.filp t fd
  match f with
  | some (some k) =>
    if fd ≥ nrOpen then return ()
    else
      Code.modify fun s => s.setFilp t fd none
      iput k
  | _ => return ()

def body : Proc → M Ret
  | .find d name i entries => findBody d name i entries
  | .get k use => getBody k use
  | .put k => putBody k

/-- The calls of task `t`. -/
inductive Call (t : Nat) : Prog State Tag Proc Ret → Prop
  | sysUnlink (root d : Key) (name : Name) : Call t (sysUnlink root d name).toProg
  | sysOpen (root d : Key) (name : Name) : Call t (sysOpen t root d name).toProg
  | sysClose (fd : Nat) : Call t (sysClose t fd).toProg

def kernel : Kernel State Tag Proc Ret where
  body := body
  env := fun _ _ => False
  ops := fun t p => t < nrTasks ∧ Call t p

/-! ## Links and entries -/

/-- What a task in a call still owes: the link of an entry it has cleared. A task
without a call has no ghost. -/
abbrev Debt := Option (Option Key)

/-- The links of `k` that are owed. -/
def owed (G : Nat → Debt) (k : Key) : Nat :=
  refs (Finset.range nrTasks) (fun t => (G t).join) k

/-- An inode has a link for each entry of the entries `S` that names it, and for
each that was cleared and not paid; a freed inode has no entry. -/
structure Links (S : Finset (Key × Nat)) (G : Nat → Debt) (s : State) : Prop where
  live   : ∀ t, (G t).isSome → t < nrTasks
  within : ∀ e k, s.names e = some k → e ∈ S
  small  : ∀ k, (s.inode k).nlinks < 256
  kept   : ∀ k, s.freed k = false → refs S s.names k + owed G k ≤ (s.inode k).nlinks
  gone   : ∀ k, s.freed k = true → refs S s.names k + owed G k = 0
  paid   : ∀ k, s.decs k + owed G k = s.clears k

/-- The condition of the runs: an entry is cleared while it names the inode. -/
def allow : Tag → State → Prop
  | .clear d i k, s => s.names (d, i) = some k
  | .grab _ _ _, _ => True

def contract (S : Finset (Key × Nat)) : Contract kernel Debt where
  inv := Links S
  allow := allow
  check := fun _ _ _ => True
  rest := fun g => g.join = none
  inv_env := fun _ _ _ _ h => h.elim
  reads := fun _ _ _ => trivial

variable {S : Finset (Key × Nat)} {G : Nat → Debt} {s s' : State} {t : Nat} {k : Key}

theorem owed_update (ht : t < nrTasks) (g : Debt) (k : Key) :
    owed (Function.update G t g) k + (if (G t).join = some k then 1 else 0) =
      owed G k + (if g.join = some k then 1 else 0) := by
  have hcell : (fun x => (Function.update G t g x).join) =
      Function.update (fun x => (G x).join) t g.join := by
    funext x
    by_cases hx : x = t
    · rw [hx, Function.update_self, Function.update_self]
    · rw [Function.update_of_ne hx, Function.update_of_ne hx]
  unfold owed
  rw [hcell]
  exact refs_update (Finset.mem_range.mpr ht) g.join k

/-- Neither names nor links change, but for the record of a freed inode. -/
structure Same (s s' : State) : Prop where
  dir    : s'.dir = s.dir
  freed  : s'.freed = s.freed
  decs   : s'.decs = s.decs
  clears : s'.clears = s.clears
  nlinks : ∀ k, s.freed k = false → (s'.inode k).nlinks = (s.inode k).nlinks
  small  : (∀ k, (s.inode k).nlinks < 256) → ∀ k, (s'.inode k).nlinks < 256

theorem names_congr (h : s'.dir = s.dir) : s'.names = s.names := by
  funext e
  unfold State.names
  rw [h]

theorem Links.same (L : Links S G s) (h : Same s s') : Links S G s' := by
  have hnames := names_congr h.dir
  refine ⟨L.live, ?_, h.small L.small, ?_, ?_, ?_⟩
  · intro e k he
    rw [hnames] at he
    exact L.within e k he
  · intro k hk
    rw [h.freed] at hk
    rw [hnames, h.nlinks k hk]
    exact L.kept k hk
  · intro k hk
    rw [h.freed] at hk
    rw [hnames]
    exact L.gone k hk
  · intro k
    rw [h.decs, h.clears]
    exact L.paid k

/-- An update of one inode that keeps its links. -/
theorem same_inode {x : Inode} (hx : x.nlinks = (s.inode k).nlinks) :
    Same s { s with inode := Function.update s.inode k x } := by
  have hlinks : ∀ v, (Function.update s.inode k x v).nlinks = (s.inode v).nlinks := by
    intro v
    by_cases hv : v = k
    · rw [hv, Function.update_self, hx]
    · rw [Function.update_of_ne hv]
  refine ⟨rfl, rfl, rfl, rfl, fun v _ => hlinks v, fun h v => ?_⟩
  show (Function.update s.inode k x v).nlinks < 256
  rw [hlinks v]
  exact h v

theorem same_drop : Same s (s.drop k) := same_inode rfl

theorem same_grab (nlinks : Nat) : Same s (s.grab k nlinks) := by
  unfold State.grab
  dsimp only
  split
  · next h =>
    have hfreed : s.freed k = true := h.1
    refine ⟨rfl, rfl, rfl, rfl, ?_, ?_⟩
    · intro v hv
      have hne : v ≠ k := by
        rintro rfl
        rw [hfreed] at hv
        cases hv
      show (Function.update s.inode k _ v).nlinks = (s.inode v).nlinks
      rw [Function.update_of_ne hne]
    · intro h v
      show (Function.update s.inode k _ v).nlinks < 256
      by_cases hv : v = k
      · rw [hv, Function.update_self]
        exact Nat.mod_lt _ (by decide)
      · rw [Function.update_of_ne hv]
        exact h v
  · exact same_inode rfl

/-- A clear entry names nothing, the others what they named. -/
theorem names_clear (d : Key) (i : Nat) :
    (s.clear d i k).names = Function.update s.names (d, i) none := by
  funext e
  by_cases he : e = (d, i)
  · rw [he, Function.update_self]
    unfold State.names State.clear
    simp
  · rw [Function.update_of_ne he]
    unfold State.names State.clear
    by_cases hd : e.1 = d
    · have hi : e.2 ≠ i := fun h => he (Prod.ext hd h)
      simp only [hd, Function.update_self, Function.update_of_ne hi]
    · simp only [Function.update_of_ne hd]

/-- An entry of the inode is cleared, and its link owed. -/
theorem links_clear (L : Links S G s) {d : Key} {i : Nat} (hg : G t = some none)
    (hnames : s.names (d, i) = some k) :
    Links S (Function.update G t (some (some k))) (s.clear d i k) := by
  have ht : t < nrTasks := L.live t (by rw [hg]; rfl)
  have howed : ∀ v, owed (Function.update G t (some (some k))) v =
      owed G v + (if k = v then 1 else 0) := by
    intro v
    have h := owed_update ht (some (some k)) v (G := G)
    rw [hg] at h
    simpa using h
  have hrefs : ∀ v, refs S (s.clear d i k).names v + (if k = v then 1 else 0) =
      refs S s.names v := by
    intro v
    have h : refs S (Function.update s.names (d, i) none) v +
        (if s.names (d, i) = some v then 1 else 0) = refs S s.names v + 0 :=
      refs_update (L.within _ _ hnames) none v
    rw [hnames] at h
    rw [names_clear]
    simpa using h
  have hfreed : s.freed k = false := by
    rcases Bool.eq_false_or_eq_true (s.freed k) with h | h
    · have h1 := L.gone k h
      have h2 := hrefs k
      rw [if_pos rfl] at h2
      omega
    · exact h
  -- the inode has a link, so none is made up
  have hpos : (s.inode k).nlinks ≠ 0 := by
    have h1 := L.kept k hfreed
    have h2 := hrefs k
    rw [if_pos rfl] at h2
    omega
  have hinode : (s.clear d i k).inode = s.inode := by
    unfold State.clear
    dsimp only
    rw [if_neg hpos]
  have hclears : ∀ v, (s.clear d i k).clears v = s.clears v + (if k = v then 1 else 0) := by
    intro v
    unfold State.clear
    dsimp only
    rw [hnames]
    dsimp only
    by_cases hv : v = k
    · rw [hv, Function.update_self, if_pos rfl]
    · rw [Function.update_of_ne hv, if_neg (Ne.symm hv)]
      rfl
  refine ⟨?_, ?_, ?_, ?_, ?_, ?_⟩
  · intro t' ht'
    by_cases htt : t' = t
    · rw [htt]
      exact ht
    · rw [Function.update_of_ne htt] at ht'
      exact L.live t' ht'
  · intro e v he
    rw [names_clear] at he
    by_cases hed : e = (d, i)
    · rw [hed, Function.update_self] at he
      cases he
    · rw [Function.update_of_ne hed] at he
      exact L.within e v he
  · rw [hinode]
    exact L.small
  · intro v hv
    have h1 := L.kept v hv
    have h2 := hrefs v
    rw [hinode, howed]
    omega
  · intro v hv
    have h1 := L.gone v hv
    have h2 := hrefs v
    rw [howed]
    omega
  · intro v
    have h1 := L.paid v
    rw [howed, hclears]
    show s.decs v + _ = _
    omega

/-- The link that is owed is dropped. -/
theorem links_unlink (L : Links S G s) (hg : G t = some (some k)) :
    Links S (Function.update G t (some none)) (s.unlink k) := by
  have ht : t < nrTasks := L.live t (by rw [hg]; rfl)
  have howed : ∀ v, owed (Function.update G t (some none)) v + (if k = v then 1 else 0) =
      owed G v := by
    intro v
    have h := owed_update ht (some none) v (G := G)
    rw [hg] at h
    simpa using h
  have hone := howed k
  rw [if_pos rfl] at hone
  have hfreed : s.freed k = false := by
    rcases Bool.eq_false_or_eq_true (s.freed k) with h | h
    · have h1 := L.gone k h
      omega
    · exact h
  have hlinks : ∀ v, ((s.unlink k).inode v).nlinks + (if k = v then 1 else 0) =
      (s.inode v).nlinks := by
    intro v
    unfold State.unlink
    dsimp only
    by_cases hv : v = k
    · rw [hv, Function.update_self, if_pos rfl]
      have h1 := L.kept k hfreed
      have h2 := L.small k
      dsimp only
      omega
    · rw [Function.update_of_ne hv, if_neg (Ne.symm hv)]
      rfl
  have hdecs : ∀ v, (s.unlink k).decs v = s.decs v + (if k = v then 1 else 0) := by
    intro v
    unfold State.unlink
    dsimp only
    by_cases hv : v = k
    · rw [hv, Function.update_self, if_pos rfl]
    · rw [Function.update_of_ne hv, if_neg (Ne.symm hv)]
      rfl
  refine ⟨?_, L.within, ?_, ?_, ?_, ?_⟩
  · intro t' ht'
    by_cases htt : t' = t
    · rw [htt]
      exact ht
    · rw [Function.update_of_ne htt] at ht'
      exact L.live t' ht'
  · intro v
    have h1 := L.small v
    have h2 := hlinks v
    omega
  · intro v hv
    have h1 := L.kept v hv
    have h2 := hlinks v
    have h3 := howed v
    show refs S s.names v + _ ≤ _
    omega
  · intro v hv
    have h1 := L.gone v hv
    have h3 := howed v
    show refs S s.names v + _ = _
    omega
  · intro v
    have h1 := L.paid v
    have h3 := howed v
    rw [hdecs]
    show _ = s.clears v
    omega

/-- An inode without links is freed: no entry names it. -/
theorem links_free (L : Links S G s) (hlinks : (s.inode k).nlinks = 0) : Links S G (s.free k) := by
  have hnone : refs S s.names k + owed G k = 0 := by
    rcases Bool.eq_false_or_eq_true (s.freed k) with h | h
    · exact L.gone k h
    · have h1 := L.kept k h
      omega
  have hinode : ∀ v, ((s.free k).inode v).nlinks = (s.inode v).nlinks := by
    intro v
    unfold State.free
    dsimp only
    by_cases hv : v = k
    · rw [hv, Function.update_self, hlinks]
    · rw [Function.update_of_ne hv]
  have hfreed : ∀ v, v ≠ k → (s.free k).freed v = s.freed v := fun v hv =>
    Function.update_of_ne hv ..
  refine ⟨L.live, L.within, ?_, ?_, ?_, L.paid⟩
  · intro v
    rw [hinode]
    exact L.small v
  · intro v hv
    rw [hinode]
    by_cases hvk : v = k
    · rw [hvk]
      show refs S s.names k + owed G k ≤ _
      omega
    · rw [hfreed v hvk] at hv
      exact L.kept v hv
  · intro v hv
    by_cases hvk : v = k
    · rw [hvk]
      exact hnone
    · rw [hfreed v hvk] at hv
      exact L.gone v hv

/-! ## The procedures -/

theorem stable_any (P : Debt → State → Prop) : Stable (contract S) P :=
  fun _ _ _ _ _ _ h => h.elim

/-- The task is in a call and owes nothing. -/
def Settled (g : Debt) (_ : State) : Prop := g = some none

variable {n : Nat}

theorem modify_same {f : State → State} (hf : ∀ s, Same s (f s)) :
    Holds (contract S) n (Code.modify f) Settled (fun _ => Settled) := by
  refine holds_modify (stable_any _) ?_
  intro G t s hi hs
  refine ⟨trivial, G t, ?_, hs⟩
  rw [Function.update_eq_self]
  exact hi.same (hf s)

theorem read_settled {α : Type} (f : State → α) :
    Holds (contract S) n (Code.read f : M α) Settled (fun _ => Settled) :=
  holds_read (stable_any _) fun _ _ _ _ h => h

theorem ask_settled : Holds (contract S) n (Code.ask : M Nat) Settled (fun _ => Settled) :=
  holds_ask (stable_any _) fun _ _ _ _ _ h => h

theorem sleep_settled : Holds (contract S) n (Code.sleep : M Unit) Settled (fun _ => Settled) :=
  holds_sleep (· = some none)

theorem grab_settled (k : Key) (use : Use) (nlinks : Nat) :
    Holds (contract S) n (Code.atom (.grab k use nlinks) fun s => s.grab k nlinks : M Unit) Settled
      (fun _ => Settled) := by
  refine holds_atom (stable_any _) ?_
  intro G t s hi hs _
  refine ⟨trivial, G t, ?_, hs⟩
  rw [Function.update_eq_self]
  exact hi.same (same_grab nlinks)

theorem stop_settled {α : Type} {Q : α → Debt → State → Prop} (why : Stop) :
    Holds (contract S) n (stop why : M α) Settled Q :=
  holds_bind (modify_same fun _ => ⟨rfl, rfl, rfl, rfl, fun _ _ => rfl, fun h => h⟩)
    fun _ => holds_panic

theorem freeInode_spec (k : Key) :
    Holds (contract S) n (freeInode k) Settled (fun _ => Settled) := by
  unfold freeInode
  refine holds_bind (holds_read (Q := fun x g s => Settled g s ∧ s.inode k = x) (stable_any _)
    fun _ _ _ _ h => ⟨h, rfl⟩) fun x => ?_
  refine holds_ite (fun _ => (stop_settled _).pre fun _ _ h => h.1) fun _ => ?_
  refine holds_ite (fun _ => (stop_settled _).pre fun _ _ h => h.1) fun hlinks => ?_
  refine holds_bind (holds_ask (Q := fun _ g s => Settled g s ∧ s.inode k = x) (stable_any _)
    fun _ _ _ _ _ h => h) fun ok => ?_
  refine holds_ite (fun _ => (stop_settled _).pre fun _ _ h => h.1) fun _ => ?_
  refine holds_modify (stable_any _) ?_
  rintro G t s hi ⟨hs, hx⟩
  refine ⟨trivial, G t, ?_, hs⟩
  rw [Function.update_eq_self]
  exact links_free hi (by rw [hx]; simpa using hlinks)

section Procedures

variable (hcall : ∀ p, Holds (contract S) n (Code.call p) Settled (fun _ => Settled))
include hcall

theorem put_spec (k : Key) : Holds (contract S) n (putBody k) Settled (fun _ => Settled) := by
  have hdrop : Holds (contract S) n
      (do Code.modify fun s => s.drop k
          return (none : Ret)) Settled (fun _ => Settled) :=
    holds_bind (modify_same fun _ => same_drop) fun _ => holds_pure fun _ _ _ _ h => h
  have hfree : Holds (contract S) n
      (do freeInode k
          return (none : Ret)) Settled (fun _ => Settled) :=
    holds_bind (freeInode_spec k) fun _ => holds_pure fun _ _ _ _ h => h
  unfold putBody
  refine holds_bind (read_settled _) fun x => ?_
  refine holds_ite (fun _ => hdrop) fun _ => ?_
  refine holds_ite (fun _ => ?_) fun _ => ?_
  · refine holds_bind (read_settled _) fun mode => holds_ite (fun _ => ?_) fun _ => hfree
    refine holds_bind (modify_same fun _ => ⟨rfl, rfl, rfl, rfl, fun _ _ => rfl, fun h => h⟩)
      fun _ => ?_
    exact holds_bind sleep_settled fun _ => hfree
  refine holds_ite (fun _ => ?_) fun _ => hdrop
  refine holds_bind sleep_settled fun _ => ?_
  refine holds_bind (modify_same fun _ => same_inode rfl) fun _ => ?_
  exact holds_bind sleep_settled fun _ => hcall (.put k)

theorem iputUnlocked_call (k : Key) :
    Holds (contract S) n (iputUnlocked k) Settled (fun _ => Settled) := by
  unfold iputUnlocked
  refine holds_bind (read_settled _) fun x => ?_
  refine holds_ite (fun _ => stop_settled _) fun _ => ?_
  refine holds_bind (read_settled _) fun mode => ?_
  refine holds_bind (holds_when (fun _ => sleep_settled) fun _ _ _ _ h _ => h) fun _ => ?_
  exact holds_bind (hcall (.put k)) fun _ => holds_pure fun _ _ _ _ h => h

theorem iput_call (k : Key) : Holds (contract S) n (iput k) Settled (fun _ => Settled) :=
  holds_bind sleep_settled fun _ => iputUnlocked_call hcall k

theorem get_spec (k : Key) (use : Use) :
    Holds (contract S) n (getBody k use) Settled (fun _ => Settled) := by
  unfold getBody
  refine holds_bind sleep_settled fun _ => holds_bind ask_settled fun nlinks => ?_
  refine holds_bind (read_settled _) fun count => ?_
  refine holds_bind (grab_settled k use nlinks) fun _ => ?_
  refine holds_bind (read_settled _) fun root => ?_
  cases root with
  | some r => exact holds_bind (iput_call hcall k) fun _ => hcall (.get r use)
  | none =>
    refine holds_bind (holds_when (fun _ => sleep_settled) fun _ _ _ _ h _ => h) fun _ => ?_
    exact holds_pure fun _ _ _ _ h => h

omit hcall in
theorem nextBlock_spec (i : Nat) :
    Holds (contract S) n (nextBlock i) Settled (fun _ => Settled) := by
  unfold nextBlock
  refine holds_ite (fun _ => ?_) fun _ => holds_pure fun _ _ _ _ h => h
  exact holds_bind sleep_settled fun _ => ask_settled

theorem find_spec (d : Key) (name : Name) (i entries : Nat) :
    Holds (contract S) n (findBody d name i entries) Settled (fun _ => Settled) := by
  unfold findBody
  refine holds_ite (fun _ => ?_) fun _ => holds_pure fun _ _ _ _ h => h
  refine holds_bind (nextBlock_spec i) fun ok => ?_
  refine holds_ite (fun _ => ?_) fun _ => ?_
  · refine holds_ite (fun _ => holds_pure fun _ _ _ _ h => h) fun _ => ?_
    exact hcall (.find d name (i + dirEntriesPerBlock) entries)
  · refine holds_bind (read_settled _) fun de => ?_
    refine holds_ite (fun _ => holds_pure fun _ _ _ _ h => h) fun _ => ?_
    exact hcall (.find d name (i + 1) entries)

end Procedures

theorem call_spec (n : Nat) (p : Proc) :
    Holds (contract S) n (Code.call p) Settled (fun _ => Settled) := by
  refine holds_calls (stable_any _) ?_ n p
  intro m hcall q
  cases q with
  | find d name i entries => exact find_spec hcall d name i entries
  | get k use => exact get_spec hcall k use
  | put k => exact put_spec hcall k

/-! ## The calls -/

theorem iput_spec (k : Key) : Holds (contract S) n (iput k) Settled (fun _ => Settled) :=
  iput_call (call_spec n) k

theorem iget_spec (k : Key) (use : Use) :
    Holds (contract S) n (iget k use) Settled (fun _ => Settled) := by
  unfold iget
  refine holds_bind sleep_settled fun _ => holds_bind ask_settled fun empty => ?_
  refine holds_ite (fun _ => stop_settled _) fun _ => ?_
  exact holds_bind (call_spec n (.get k use)) fun _ => holds_pure fun _ _ _ _ h => h

theorem permission_spec (k : Key) :
    Holds (contract S) n (permission k) Settled (fun _ => Settled) := by
  unfold permission
  refine holds_bind ask_settled fun ok => holds_bind (read_settled _) fun x => ?_
  exact holds_pure fun _ _ _ _ h => h

theorem dirNamei_spec (d : Key) (use : Use) :
    Holds (contract S) n (dirNamei d use) Settled (fun _ => Settled) := by
  unfold dirNamei
  refine holds_bind (iget_spec d use) fun d => holds_bind (permission_spec d) fun ok => ?_
  refine holds_ite (fun _ => holds_pure fun _ _ _ _ h => h) fun _ => ?_
  exact holds_bind (iputUnlocked_call (call_spec n) d) fun _ => holds_pure fun _ _ _ _ h => h

theorem findEntry_spec (root d : Key) (name : Name) :
    Holds (contract S) n (findEntry root d name) Settled (fun _ => Settled) := by
  have hlook : ∀ (x : Key) (look : Name) (entries : Nat), Holds (contract S) n
      (do let r ← Code.call (.find x look 0 entries)
          return (x, r)) Settled (fun _ => Settled) := fun x look entries =>
    holds_bind (call_spec n (.find x look 0 entries)) fun _ => holds_pure fun _ _ _ _ h => h
  unfold findEntry
  refine holds_bind (read_settled _) fun entries => ?_
  refine holds_ite (fun _ => holds_pure fun _ _ _ _ h => h) fun _ => ?_
  refine holds_ite (fun _ => hlook d dot entries) fun _ => ?_
  refine holds_bind (read_settled _) fun covered => ?_
  cases covered with
  | none => exact hlook d _ entries
  | some o =>
    refine holds_ite (fun _ => ?_) fun _ => hlook d _ entries
    refine holds_bind (iput_spec d) fun _ => ?_
    exact holds_bind (grab_settled o .dir 0) fun _ => hlook o _ entries

theorem clear_spec (d : Key) (i : Nat) (k : Key) :
    Holds (contract S) n (Code.atom (.clear d i k) fun s => s.clear d i k) Settled
      (fun _ g _ => g = some (some k)) := by
  refine holds_atom (stable_any _) ?_
  intro G t s hi hs hallow
  exact ⟨trivial, some (some k), links_clear hi hs hallow, rfl⟩

theorem unlink_spec (k : Key) :
    Holds (contract S) n (Code.modify fun s => s.unlink k) (fun g _ => g = some (some k))
      (fun _ => Settled) := by
  refine holds_modify (stable_any _) ?_
  intro G t s hi hs
  exact ⟨trivial, some none, links_unlink hi hs, rfl⟩

theorem sysUnlink_spec (root d : Key) (name : Name) :
    Holds (contract S) n (sysUnlink root d name) Settled (fun _ => Settled) := by
  unfold sysUnlink
  refine holds_bind (dirNamei_spec d .dir) fun dir => ?_
  cases dir with
  | none => exact holds_pure fun _ _ _ _ h => h
  | some d =>
    refine holds_ite (fun _ => iput_spec d) fun _ => holds_bind (permission_spec d) fun ok => ?_
    refine holds_ite (fun _ => iput_spec d) fun _ => ?_
    refine holds_bind (findEntry_spec root d name) fun f => ?_
    obtain ⟨x, e⟩ := f
    cases e with
    | none => exact iput_spec x
    | some e =>
      refine holds_bind (iget_spec _ .unlinked) fun k => holds_bind ask_settled fun sticky => ?_
      refine holds_ite (fun _ => holds_bind (iput_spec x) fun _ => iput_spec k) fun _ => ?_
      refine holds_bind (read_settled _) fun mode => ?_
      refine holds_ite (fun _ => holds_bind (iput_spec k) fun _ => iput_spec x) fun _ => ?_
      refine holds_bind (clear_spec x e.1 k) fun _ => ?_
      -- the link is owed across the sleep
      refine holds_bind (holds_sleep (· = some (some k))) fun _ => ?_
      refine holds_bind (unlink_spec k) fun _ => ?_
      exact holds_bind (iput_spec k) fun _ => iput_spec x

theorem setFilp_spec (t fd : Nat) (f : Option (Option Key)) :
    Holds (contract S) n (Code.modify fun s => s.setFilp t fd f) Settled (fun _ => Settled) :=
  modify_same fun _ => ⟨rfl, rfl, rfl, rfl, fun _ _ => rfl, fun h => h⟩

theorem openNamei_spec (root d : Key) (name : Name) :
    Holds (contract S) n (openNamei root d name) Settled (fun _ => Settled) := by
  have hfail : ∀ k, Holds (contract S) n (do iput k; return (none : Option Key)) Settled
      (fun _ => Settled) := fun k =>
    holds_bind (iput_spec k) fun _ => holds_pure fun _ _ _ _ h => h
  unfold openNamei
  refine holds_bind (dirNamei_spec d _) fun dir => ?_
  cases dir with
  | none => exact holds_pure fun _ _ _ _ h => h
  | some d =>
    refine holds_ite (fun _ => ?_) fun _ => ?_
    · refine holds_bind ask_settled fun flags => ?_
      exact holds_ite (fun _ => holds_pure fun _ _ _ _ h => h) fun _ => hfail d
    refine holds_bind (findEntry_spec root d name) fun f => ?_
    obtain ⟨x, e⟩ := f
    cases e with
    | none => exact hfail x
    | some e =>
      refine holds_bind (iput_spec x) fun _ => holds_bind ask_settled fun excl => ?_
      refine holds_ite (fun _ => holds_pure fun _ _ _ _ h => h) fun _ => ?_
      refine holds_bind (iget_spec _ .opened) fun k => holds_bind (permission_spec k) fun ok => ?_
      refine holds_ite (fun _ => ?_) fun _ => ?_
      · exact holds_bind sleep_settled fun _ => holds_pure fun _ _ _ _ h => h
      · exact holds_bind (iputUnlocked_call (call_spec n) k) fun _ => holds_pure fun _ _ _ _ h => h

theorem sysOpen_spec (t : Nat) (root d : Key) (name : Name) :
    Holds (contract S) n (sysOpen t root d name) Settled (fun _ => Settled) := by
  unfold sysOpen
  refine holds_bind (read_settled _) fun fd => holds_bind ask_settled fun file => ?_
  cases fd with
  | none => exact holds_pure fun _ _ _ _ h => h
  | some fd =>
    refine holds_ite (fun _ => holds_pure fun _ _ _ _ h => h) fun _ => ?_
    refine holds_bind (setFilp_spec t fd _) fun _ => ?_
    refine holds_bind (openNamei_spec root d name) fun k => ?_
    cases k with
    | none => exact setFilp_spec t fd none
    | some k =>
      refine holds_bind ask_settled fun tty => ?_
      refine holds_ite (fun _ => ?_) fun _ => setFilp_spec t fd _
      exact holds_bind (iput_spec k) fun _ => setFilp_spec t fd none

theorem sysClose_spec (t fd : Nat) :
    Holds (contract S) n (sysClose t fd) Settled (fun _ => Settled) := by
  unfold sysClose
  refine holds_bind (read_settled _) fun f => ?_
  match f with
  | none => exact holds_pure fun _ _ _ _ h => h
  | some none => exact holds_pure fun _ _ _ _ h => h
  | some (some k) =>
    refine holds_ite (fun _ => holds_pure fun _ _ _ _ h => h) fun _ => ?_
    exact holds_bind (setFilp_spec t fd none) fun _ => iput_spec k

/-- A task begins a call. -/
theorem links_begin (L : Links S G s) (ht : t < nrTasks) (hrest : (G t).join = none) :
    Links S (Function.update G t (some none)) s := by
  have howed : ∀ v, owed (Function.update G t (some none)) v = owed G v := by
    intro v
    have h := owed_update ht (some none) v (G := G)
    rw [hrest] at h
    simpa using h
  refine ⟨?_, L.within, L.small, ?_, ?_, ?_⟩
  · intro t' ht'
    by_cases htt : t' = t
    · rw [htt]
      exact ht
    · rw [Function.update_of_ne htt] at ht'
      exact L.live t' ht'
  · intro v hv
    rw [howed]
    exact L.kept v hv
  · intro v hv
    rw [howed]
    exact L.gone v hv
  · intro v
    rw [howed]
    exact L.paid v

/-- Every call keeps the contract. -/
theorem starts : Starts (contract S) := by
  rintro t p ⟨ht, hp⟩ G s hi hrest
  have hstart : ∀ {x : M Unit}, (∀ n, Holds (contract S) n x Settled (fun _ => Settled)) →
      Begins (contract S) t G s x.toProg := by
    intro x hx
    refine Holds.begins hx (links_begin hi ht hrest) (fun _ => rfl) fun _ G'' t' s'' _ h => ?_
    show (G'' t').join = none
    rw [show G'' t' = some none from h]
    rfl
  cases hp with
  | sysUnlink root d name => exact hstart fun n => sysUnlink_spec root d name
  | sysOpen root d name => exact hstart fun n => sysOpen_spec t root d name
  | sysClose fd => exact hstart fun n => sysClose_spec t fd

/-- A file system at rest: the entries are those of `S`, every inode has a link
for each of its entries, a freed one has none. -/
structure Sound (S : Finset (Key × Nat)) (s : State) : Prop where
  within : ∀ e k, s.names e = some k → e ∈ S
  small  : ∀ k, (s.inode k).nlinks < 256
  kept   : ∀ k, s.freed k = false → refs S s.names k ≤ (s.inode k).nlinks
  gone   : ∀ k e, s.freed k = true → s.names e ≠ some k
  fresh  : ∀ k, s.decs k = 0 ∧ s.clears k = 0

theorem Sound.links (h : Sound S s) : Links S (fun _ => none) s := by
  have howed : ∀ k, owed (fun _ => none) k = 0 := by
    intro k
    exact refs_eq_zero_iff.mpr fun _ _ h => by cases h
  refine ⟨?_, h.within, h.small, ?_, ?_, ?_⟩
  · intro t ht
    cases ht
  · intro k hk
    rw [howed]
    exact h.kept k hk
  · intro k hk
    rw [howed]
    exact refs_eq_zero_iff.mpr fun e _ => h.gone k e hk
  · intro k
    rw [howed, (h.fresh k).1, (h.fresh k).2]

/-- **One removal per name.** However `sys_unlink`, `sys_open` and `sys_close`
interleave, if every entry is cleared while it names the inode it was looked up
for, then no more links are dropped than entries were cleared, and no entry names
an inode that has been freed. -/
theorem unlink_once (h0 : Sound S s) {c : Config State Tag Proc Ret}
    (h : kernel.Reach allow (Config.idle s) c) :
    (∀ k, c.shared.decs k ≤ c.shared.clears k) ∧
      ∀ k e, c.shared.freed k = true → c.shared.names e ≠ some k := by
  have hi : (contract S).inv (fun _ => none) s := h0.links
  obtain ⟨G, hG⟩ := reach_idle starts hi (fun _ => rfl) h
  have L : Links S G c.shared := hG.inv
  constructor
  · intro k
    have h1 := L.paid k
    omega
  · intro k e hfreed hnames
    have h1 := L.gone k hfreed
    have h2 : 0 < refs S c.shared.names k := refs_pos_iff.mpr ⟨e, L.within e k hnames, hnames⟩
    omega

/-- The root of device 1, with two names `a` and `b` of inode 5. -/
def twoNames : State where
  dir := fun d => if d = (1, 1) then
      ⟨4, fun i => [⟨1, dot⟩, ⟨1, dotdot⟩, ⟨5, [97#8]⟩, ⟨5, [98#8]⟩].getD i ⟨0, []⟩⟩
    else ⟨0, fun _ => ⟨0, []⟩⟩
  inode := fun k => ⟨2, if k = (1, 1) then 1 else 0, false⟩
  mode := fun k => if k = (1, 1) then .dir else .reg
  mount := fun _ => none
  covered := fun _ => none
  freed := fun _ => false
  filp := fun _ _ => none
  stopped := none
  freeing := fun _ => false
  decs := fun _ => 0
  clears := fun _ => 0

/-- Its entries. -/
def itsNames : Finset (Key × Nat) := {((1, 1), 0), ((1, 1), 1), ((1, 1), 2), ((1, 1), 3)}

theorem sound_twoNames : Sound itsNames twoNames := by
  have hwithin : ∀ e k, twoNames.names e = some k →
      e ∈ itsNames ∧ (k = (1, 1) ∨ k = (1, 5)) := by
    rintro ⟨d, i⟩ k he
    have hd : d = (1, 1) := by
      by_contra hd
      simp [State.names, twoNames, hd] at he
    subst hd
    have hi : i < 4 := by
      by_contra hi
      simp [State.names, twoNames, hi] at he
    have h4 : i = 0 ∨ i = 1 ∨ i = 2 ∨ i = 3 := by omega
    rcases h4 with rfl | rfl | rfl | rfl
    · cases he
      exact ⟨by decide, Or.inl rfl⟩
    · cases he
      exact ⟨by decide, Or.inl rfl⟩
    · cases he
      exact ⟨by decide, Or.inr rfl⟩
    · cases he
      exact ⟨by decide, Or.inr rfl⟩
  refine ⟨fun e k he => (hwithin e k he).1, fun _ => (by decide : 2 < 256), ?_, ?_, fun _ => ⟨rfl, rfl⟩⟩
  · intro k _
    show refs itsNames twoNames.names k ≤ 2
    by_cases hk : k = (1, 1) ∨ k = (1, 5)
    · rcases hk with rfl | rfl <;> decide
    · have h0 : refs itsNames twoNames.names k = 0 :=
        refs_eq_zero_iff.mpr fun e _ he => hk (hwithin e k he).2
      omega
  · intro k e hk
    cases hk

def unlinkA : Prog State Tag Proc Ret := (sysUnlink (1, 1) (1, 1) [97#8]).toProg

def unlinkB : Prog State Tag Proc Ret := (sysUnlink (1, 1) (1, 1) [98#8]).toProg

/-- `sys_unlink` up to the `iget` of the inode it has found. -/
def lookup (t : Nat) : List (Move State Tag Proc Ret Unit) :=
  leg t [] ++ leg t [1] ++ leg t [0, 1, 1] ++ leg t [1]

/-- From there to the link it drops, when nobody has the inode. -/
def removal (t : Nat) : List (Move State Tag Proc Ret Unit) :=
  leg t [1] ++ leg t [0] ++ leg t [0] ++ leg t []

/-- The condition of the runs, to be evaluated. -/
def allowed : Tag → State → Bool
  | .clear d i k, s => s.names (d, i) == some k
  | .grab _ _ _, _ => true

theorem allow_of_allowed : ∀ x s, allowed x s = true → allow x s := by
  intro x s h
  cases x with
  | clear d i k => simpa [allowed, allow] using h
  | grab k use nlinks => trivial

theorem unlinkA_ops {t : Nat} (ht : t < nrTasks) : kernel.ops t unlinkA :=
  ⟨ht, .sysUnlink (1, 1) (1, 1) [97#8]⟩

theorem unlinkB_ops {t : Nat} (ht : t < nrTasks) : kernel.ops t unlinkB :=
  ⟨ht, .sysUnlink (1, 1) (1, 1) [98#8]⟩

/-- The two names are removed side by side. Both tasks have the inode before the
first link is dropped, and the one that drops the second link frees it. -/
def bothNames : List (Move State Tag Proc Ret Unit) :=
  [.start 0 unlinkA, .start 1 unlinkB] ++ lookup 0 ++ lookup 1 ++ leg 0 [1] ++ leg 1 [1] ++
    leg 0 [0] ++ leg 1 [0, 0] ++ leg 0 [0] ++ leg 0 [] ++ leg 1 [] ++ leg 0 [] ++ leg 1 [] ++
    leg 1 [1]

theorem unlink_once_bothNames :
    ∃ c, kernel.Reach allow (Config.idle twoNames) c ∧
      (c.shared.decs (1, 5) = 2 ∧ c.shared.freed (1, 5) = true) ∧
      (∀ k, c.shared.decs k ≤ c.shared.clears k) ∧
      ∀ k e, c.shared.freed k = true → c.shared.names e ≠ some k := by
  have hplay : ((kernel.play allowed (fun (_ : Unit) _ => none) bothNames
      (Config.idle twoNames)).map fun c => decide (c.shared.decs (1, 5) = 2 ∧
        c.shared.freed (1, 5) = true)) = some true := by
    decide +kernel
  have hops : ∀ q ∈ programs bothNames, kernel.ops q.1 q.2 := by
    rintro q (_ | ⟨_, _ | ⟨_, ⟨⟩⟩⟩)
    · exact unlinkA_ops (by decide)
    · exact unlinkB_ops (by decide)
  obtain ⟨c, hreach, hdecs⟩ := exists_reach allow_of_allowed (by simp) hops hplay
  exact ⟨c, hreach, of_decide_eq_true hdecs, unlink_once sound_twoNames hreach⟩

/-- Two `sys_unlink` of the name `a`: both look it up before one of them clears it,
both drop a link, and the inode is freed. -/
def twoUnlinks : List (Move State Tag Proc Ret Unit) :=
  [.start 0 unlinkA, .start 1 unlinkA] ++ lookup 0 ++ lookup 1 ++ removal 0 ++
    leg 1 [1] ++ leg 1 [0, 0] ++ leg 1 [] ++ leg 1 [] ++ leg 0 [] ++ leg 0 [1]

/-- The other name is left, and its inode is gone. -/
theorem unlink_twice :
    ¬ ∀ (S : Finset (Key × Nat)) (s : State) (c : Config State Tag Proc Ret), Sound S s →
        kernel.Reach (fun _ _ => True) (Config.idle s) c →
        (∀ k, c.shared.decs k ≤ c.shared.clears k) ∧
          ∀ k e, c.shared.freed k = true → c.shared.names e ≠ some k := by
  intro hclaim
  have hplay : ((kernel.play (fun _ _ => true) (fun (_ : Unit) _ => none) twoUnlinks
      (Config.idle twoNames)).map fun c => decide (c.shared.freed (1, 5) = true ∧
        c.shared.names ((1, 1), 3) = some (1, 5))) = some true := by decide +kernel
  have hops : ∀ q ∈ programs twoUnlinks, kernel.ops q.1 q.2 := by
    rintro q (_ | ⟨_, _ | ⟨_, ⟨⟩⟩⟩)
    · exact unlinkA_ops (by decide)
    · exact unlinkA_ops (by decide)
  obtain ⟨c, hreach, hgone⟩ := exists_reach (fun _ _ _ => trivial) (by simp) hops hplay
  obtain ⟨hfreed, hnames⟩ := of_decide_eq_true hgone
  exact (hclaim itsNames twoNames c sound_twoNames hreach).2 (1, 5) ((1, 1), 3) hfreed hnames

end Linux011.Fs.Unlink
