import Linux011.Lib.Coop

/-!
# Directories — names added by several tasks

`open(O_CREAT)`, `sys_mknod`, `sys_mkdir` and `sys_link` look a name up with
`find_entry` and add it later with `add_entry`. In between they sleep: in
`bread`, in `new_inode`, in `new_block`, in `iput`. No lock is held on the
directory.

The state is what the directory blocks hold; a read of a block may sleep and may
fail. `adds` counts the entries of each name a directory has got, for the
specification only.

* `enter_inv` — one entry added, as the condition of the runs asks it;
* `find_spec`, `add_spec` — the two scans, under any interleaving;
* `names_unique` — no directory holds two live entries of one name, as long as
  nobody adds the name between lookup and addition;
* `names_twice` — two `open(O_CREAT)` that do.
-/

namespace Linux011.Fs.Names

open Linux011.Lib Linux011.Lib.Kernel

/-! ## Directories -/

abbrev Name := List (BitVec 8)

/-- `struct dir_entry`. -/
structure Entry where
  inode : Nat
  name  : Name
  deriving DecidableEq, Repr

/-- A directory: `i_size` in entries, and the entries of its blocks. -/
structure Dir where
  size : Nat
  slot : Nat → Entry

structure State where
  dir  : Nat → Dir
  adds : Nat → Name → Nat
  /-- The directory a mounted root covers. -/
  covered : Nat → Option Nat

def nameLen : Nat := 14
def dirEntriesPerBlock : Nat := 64

def dot : Name := [46#8]
def dotdot : Name := [46#8, 46#8]

/-- The entry in slot `i` is live and has the name. -/
def Live (D : Dir) (i : Nat) (name : Name) : Prop :=
  i < D.size ∧ (D.slot i).inode ≠ 0 ∧ (D.slot i).name = name

instance (D : Dir) (i : Nat) (name : Name) : Decidable (Live D i name) :=
  inferInstanceAs (Decidable (_ ∧ _ ∧ _))

/-- The entry is stored: the name by `add_entry`, the inode number by its caller,
who does not sleep in between. -/
def Dir.enter (D : Dir) (i : Nat) (e : Entry) : Dir :=
  { size := max D.size (i + 1), slot := Function.update D.slot i e }

/-- The block `sys_mkdir` fills for a new directory. -/
def newDir (inode parent : Nat) : Dir where
  size := 2
  slot := fun i => if i = 0 then ⟨inode, dot⟩ else if i = 1 then ⟨parent, dotdot⟩ else ⟨0, []⟩

/-- The new entry `e` of directory `d` in slot `i`; `fresh` if it is the new
directory that `sys_mkdir` makes. -/
def State.enter (s : State) (d i : Nat) (e : Entry) (fresh : Bool) : State :=
  let dir := Function.update s.dir d ((s.dir d).enter i e)
  let adds := Function.update s.adds d (Function.update (s.adds d) e.name (s.adds d e.name + 1))
  if fresh then
    { s with
      dir := Function.update dir e.inode (newDir e.inode d)
      adds := Function.update adds e.inode fun name => adds e.inode name + 1 }
  else
    { s with dir := dir, adds := adds }

/-! ## The code -/

/-- The store of an entry: where, which, how many of its name the directory had
got when the lookup began, and whether the lookup was for this name, in this
directory, over all its blocks. -/
inductive Tag
  | enter (d i : Nat) (name : Name) (seen : Nat) (complete : Bool)

/-- The loops of `find_entry` and `add_entry`. -/
inductive Proc
  | find (d : Nat) (name : Name) (i entries : Nat) (skipped : Bool)
  | add (d : Nat) (name : Name) (i inode : Nat) (fresh : Bool) (seen : Nat) (complete : Bool)

/-- Whether the entry was found, or added, and whether a block was skipped. -/
structure Ret where
  done    : Bool
  skipped : Bool

abbrev M := Code State Tag Proc Ret

/-- `match`. -/
def match_ (name : Name) (de : Entry) : Bool := de.inode != 0 && de.name == name

/-- A read of the next block, which may sleep and may fail, when the scan is at
the first entry of one; `ok` when it is not. -/
def nextBlock (i ok : Nat) : M Nat :=
  if i % dirEntriesPerBlock = 0 then do Code.sleep; Code.ask else pure ok

/-- A round of the loop of `find_entry`. A block is read at its first entry; one
that cannot be read is skipped, but for the first. -/
def findBody (d : Nat) (name : Name) (i entries : Nat) (skipped : Bool) : M Ret := do
  if i < entries then
    let ok ← nextBlock i 1
    if ok = 0 then
      if i = 0 then return ⟨false, true⟩
      else Code.call (.find d name (i + dirEntriesPerBlock) entries true)
    else
      let de ← Code.read fun s => (s.dir d).slot i
      if match_ name de then return ⟨true, skipped⟩
      else Code.call (.find d name (i + 1) entries skipped)
  else
    return ⟨false, skipped⟩

/-- What `find_entry` leaves for its caller: the directory, which it exchanges
when `..` leads over a mount point, and what was found. -/
structure Found where
  dir      : Nat
  found    : Bool
  seen     : Nat
  complete : Bool

/-- `find_entry`, for a task with the given root. The number of entries is that
of the directory it was given. A lookup that goes elsewhere for `..` counts as
one that skips a block. -/
def findEntry (root d : Nat) (name : Name) : M Found := do
  let name := name.take nameLen
  let seen ← Code.read fun s => s.adds d name
  let entries ← Code.read fun s => (s.dir d).size
  if name = [] then
    return ⟨d, false, seen, false⟩
  else if name = dotdot ∧ d = root then
    let r ← Code.call (.find d dot 0 entries true)
    return ⟨d, r.done, seen, !r.skipped⟩
  else
    let covered ← Code.read fun s => s.covered d
    if name = dotdot ∧ covered.isSome then
      -- the mounted root is put, which may sleep
      Code.sleep
      let r ← Code.call (.find (covered.getD d) name 0 entries true)
      return ⟨covered.getD d, r.done, seen, !r.skipped⟩
    else
      let r ← Code.call (.find d name 0 entries false)
      return ⟨d, r.done, seen, !r.skipped⟩

/-- A round of the loop of `add_entry`, with the store of the inode number. At
the first entry of a block, `create_block` may fail (0) and so may the read
(1). -/
def addBody (d : Nat) (name : Name) (i inode : Nat) (fresh : Bool) (seen : Nat)
    (complete : Bool) : M Ret := do
  let ok ← nextBlock i 2
  if ok = 0 ∨ ok = 1 ∧ i = 0 then return ⟨false, false⟩
  else if ok = 1 then
    Code.call (.add d name (i + dirEntriesPerBlock) inode fresh seen complete)
  else
    let D ← Code.read fun s => s.dir d
    if i ≥ D.size ∨ (D.slot i).inode = 0 then do
      Code.atom (.enter d i name seen complete) fun s => s.enter d i ⟨inode, name⟩ fresh
      return ⟨true, false⟩
    else Code.call (.add d name (i + 1) inode fresh seen complete)

/-- `add_entry` and the store of the inode number into the entry. -/
def addEntry (d : Nat) (name : Name) (inode : Nat) (fresh : Bool) (seen : Nat)
    (complete : Bool) : M Bool := do
  let name := name.take nameLen
  if name = [] then return false
  else
    let r ← Code.call (.add d name 0 inode fresh seen complete)
    return r.done

/-- `new_inode`: an inode number, 0 when there is none. -/
def newInode : M Nat := do
  Code.sleep
  Code.ask

/-- `iput`, as far as it lets others run. -/
def iput : M Unit := Code.sleep

/-- `open_namei` with `O_CREAT`, once `dir_namei` has found the directory. The
permission to write it is asked of the world. -/
def openCreat (root d : Nat) (name : Name) : M Unit := do
  let f ← findEntry root d name
  if f.found then iput
  else
    let permission ← Code.ask
    if permission = 0 then iput
    else
      let inode ← newInode
      if inode = 0 then iput
      else
        let added ← addEntry f.dir name inode false f.seen f.complete
        Code.when (!added) iput
        iput

/-- `sys_mknod`. -/
def sysMknod (root d : Nat) (name : Name) : M Unit := do
  let permission ← Code.ask
  if permission = 0 then iput
  else
    let f ← findEntry root d name
    if f.found then iput
    else
      let inode ← newInode
      if inode = 0 then iput
      else
        let _ ← addEntry f.dir name inode false f.seen f.complete
        iput
        iput

/-- `sys_mkdir`. The block of the new directory is filled before `add_entry`, and
nobody can reach it before the entry is there. -/
def sysMkdir (root d : Nat) (name : Name) : M Unit := do
  let permission ← Code.ask
  if permission = 0 then iput
  else
    let f ← findEntry root d name
    if f.found then iput
    else
      let inode ← newInode
      if inode = 0 then iput
      else
        -- `new_block` and the read of the new block
        Code.sleep
        let block ← Code.ask
        if block = 0 then do
          iput
          iput
        else
          let _ ← addEntry f.dir name inode true f.seen f.complete
          iput
          iput

/-- `sys_link`, once the old name has led to an inode. -/
def sysLink (root d : Nat) (name : Name) (oldinode : Nat) : M Unit := do
  let permission ← Code.ask
  if permission = 0 then iput
  else
    let f ← findEntry root d name
    if f.found then iput
    else
      let _ ← addEntry f.dir name oldinode false f.seen f.complete
      iput

def body : Proc → M Ret
  | .find d name i entries skipped => findBody d name i entries skipped
  | .add d name i inode fresh seen complete => addBody d name i inode fresh seen complete

/-- The calls. -/
inductive Call : Prog State Tag Proc Ret → Prop
  | openCreat (root d : Nat) (name : Name) : Call (openCreat root d name).toProg
  | sysMknod (root d : Nat) (name : Name) : Call (sysMknod root d name).toProg
  | sysMkdir (root d : Nat) (name : Name) : Call (sysMkdir root d name).toProg
  | sysLink (root d : Nat) (name : Name) (oldinode : Nat) :
      Call (sysLink root d name oldinode).toProg

/-- Tasks that make them, without interrupts that matter. -/
def kernel : Kernel State Tag Proc Ret where
  body := body
  env := fun _ _ => False
  ops := fun _ p => Call p

/-! ## What the tasks know -/

/-- Every name is live in one slot of a directory at most. -/
def Unique (s : State) : Prop :=
  ∀ d i j name, Live (s.dir d) i name → Live (s.dir d) j name → i = j

/-- What a task knows of a name it looks for: as long as the directory has got
no entry of that name since, the name is not live but in the slots from `next`
to `entries`. -/
structure Watch where
  d       : Nat
  name    : Name
  seen    : Nat
  next    : Nat
  entries : Nat

def Watch.Holds (w : Watch) (s : State) : Prop :=
  w.seen ≤ s.adds w.d w.name ∧
    (s.adds w.d w.name = w.seen →
      ∀ i, Live (s.dir w.d) i w.name → w.next ≤ i ∧ i < w.entries)

def Inv (G : Nat → Option Watch) (s : State) : Prop :=
  Unique s ∧ ∀ t w, G t = some w → w.Holds s

/-- The condition of the runs: an entry is stored when the lookup was complete
and the directory has got none of that name since it began, and it is not stored
beyond the end of the directory. -/
def allow : Tag → State → Prop
  | .enter d i name seen complete, s =>
    complete = true ∧ s.adds d name = seen ∧ i ≤ (s.dir d).size

def contract : Contract kernel (Option Watch) where
  inv := Inv
  allow := allow
  check := fun _ _ _ => True
  rest := fun _ => True
  inv_env := fun _ _ _ _ h => h.elim
  reads := fun _ _ _ => trivial

/-! ## An entry added -/

theorem live_enter {D : Dir} {i j : Nat} {e : Entry} {name : Name} (hi : i ≤ D.size)
    (h : Live (D.enter i e) j name) : j = i ∧ e.name = name ∨ j ≠ i ∧ Live D j name := by
  obtain ⟨hj, hne, hname⟩ := h
  unfold Dir.enter at hj hne hname
  dsimp only at hj hne hname
  by_cases hji : j = i
  · left
    rw [hji, Function.update_self] at hname
    exact ⟨hji, hname⟩
  · right
    rw [Function.update_of_ne hji] at hne hname
    exact ⟨hji, by omega, hne, hname⟩

/-- A new directory has each of its two names once. -/
theorem live_newDir {inode parent i : Nat} {name : Name} (h : Live (newDir inode parent) i name) :
    i = 0 ∧ name = dot ∨ i = 1 ∧ name = dotdot := by
  obtain ⟨hi, -, hname⟩ := h
  unfold newDir at hi hname
  dsimp only at hi hname
  have h01 : i = 0 ∨ i = 1 := by omega
  rcases h01 with rfl | rfl
  · exact Or.inl ⟨rfl, hname.symm⟩
  · exact Or.inr ⟨rfl, hname.symm⟩

section Enter

variable {s : State} {d i : Nat} {e : Entry} {fresh : Bool}

/-- The directory made by `sys_mkdir`. -/
theorem enter_fresh : (s.enter d i e true).dir e.inode = newDir e.inode d := by
  unfold State.enter
  simp

/-- Any other directory: it is as it was, or it is the one entered into. -/
theorem enter_other {x : Nat} (hx : ¬ (fresh = true ∧ x = e.inode)) :
    (s.enter d i e fresh).dir x = if x = d then (s.dir d).enter i e else s.dir x := by
  unfold State.enter
  dsimp only
  cases fresh with
  | true =>
    have hne : x ≠ e.inode := fun h => hx ⟨rfl, h⟩
    simp only [if_true, Function.update_of_ne hne, Function.update_apply]
  | false => simp only [Bool.false_eq_true, if_false, Function.update_apply]

/-- What is live after the store, in a directory that was there before. -/
theorem live_of_enter {x j : Nat} {name : Name} (hi : i ≤ (s.dir d).size)
    (hx : ¬ (fresh = true ∧ x = e.inode)) (h : Live ((s.enter d i e fresh).dir x) j name) :
    x = d ∧ j = i ∧ name = e.name ∨ Live (s.dir x) j name ∧ (x = d → j ≠ i) := by
  rw [enter_other hx] at h
  by_cases hxd : x = d
  · rw [if_pos hxd] at h
    rcases live_enter hi h with ⟨hj, hname⟩ | ⟨hj, hlive⟩
    · exact Or.inl ⟨hxd, hj, hname.symm⟩
    · rw [hxd]
      exact Or.inr ⟨hlive, fun _ => hj⟩
  · rw [if_neg hxd] at h
    exact Or.inr ⟨h, fun hd => absurd hd hxd⟩

/-- The counts grow where something was added. -/
theorem adds_enter (s : State) (d i : Nat) (e : Entry) (fresh : Bool) (x : Nat) (name : Name) :
    s.adds x name ≤ (s.enter d i e fresh).adds x name ∧
      ((s.enter d i e fresh).adds x name = s.adds x name →
        ¬ (fresh = true ∧ x = e.inode) ∧ ¬ (x = d ∧ name = e.name)) := by
  -- the count in the directory entered into
  have hadd : ∀ y nm, s.adds y nm ≤ Function.update s.adds d
        (Function.update (s.adds d) e.name (s.adds d e.name + 1)) y nm ∧
      (Function.update s.adds d (Function.update (s.adds d) e.name (s.adds d e.name + 1)) y nm =
        s.adds y nm → ¬ (y = d ∧ nm = e.name)) := by
    intro y nm
    by_cases hy : y = d
    · subst hy
      rw [Function.update_self]
      by_cases hn : nm = e.name
      · subst hn
        rw [Function.update_self]
        omega
      · rw [Function.update_of_ne hn]
        exact ⟨Nat.le_refl _, fun _ h => hn h.2⟩
    · rw [Function.update_of_ne hy]
      exact ⟨Nat.le_refl _, fun _ h => hy h.1⟩
  obtain ⟨hle, hsame⟩ := hadd x name
  unfold State.enter
  dsimp only
  cases fresh with
  | false =>
    simp only [Bool.false_eq_true, if_false, false_and, not_false_eq_true, true_and]
    exact ⟨hle, hsame⟩
  | true =>
    simp only [if_true, true_and]
    by_cases hx : x = e.inode
    · rw [hx, Function.update_self]
      rw [hx] at hle
      exact ⟨by omega, fun h => by omega⟩
    · rw [Function.update_of_ne hx]
      exact ⟨hle, fun h => ⟨hx, hsame h⟩⟩

/-- **An entry added** to a directory that has none of its name keeps the names
unique and what the tasks know. -/
theorem enter_inv {G : Nat → Option Watch} (I : Inv G s) (hi : i ≤ (s.dir d).size)
    (habsent : ∀ j, ¬ Live (s.dir d) j e.name) : Inv G (s.enter d i e fresh) := by
  refine ⟨?_, ?_⟩
  · intro x j j' name h h'
    by_cases hx : fresh = true ∧ x = e.inode
    · obtain ⟨rfl, rfl⟩ := hx
      rw [enter_fresh] at h h'
      have hdots : dot ≠ dotdot := by decide
      rcases live_newDir h with ⟨rfl, hn⟩ | ⟨rfl, hn⟩ <;>
        rcases live_newDir h' with ⟨rfl, hn'⟩ | ⟨rfl, hn'⟩
      · rfl
      · exact absurd (hn.symm.trans hn') hdots
      · exact absurd (hn'.symm.trans hn) hdots
      · rfl
    · rcases live_of_enter hi hx h with ⟨hxd, hj, hn⟩ | ⟨hlive, hj⟩ <;>
        rcases live_of_enter hi hx h' with ⟨hxd', hj', hn'⟩ | ⟨hlive', hj'⟩
      · rw [hj, hj']
      · rw [hxd, hn] at hlive'
        exact absurd hlive' (habsent j')
      · rw [hxd', hn'] at hlive
        exact absurd hlive (habsent j)
      · exact I.1 x j j' name hlive hlive'
  · intro t w hw
    obtain ⟨hle, hwatch⟩ := I.2 t w hw
    obtain ⟨hle', hsame⟩ := adds_enter s d i e fresh w.d w.name
    refine ⟨Nat.le_trans hle hle', ?_⟩
    intro hseen j hj
    have hold : s.adds w.d w.name = w.seen := by omega
    obtain ⟨hx, hn⟩ := hsame (hseen.trans hold.symm)
    rcases live_of_enter hi hx hj with ⟨hd, -, hname⟩ | ⟨hlive, -⟩
    · exact absurd ⟨hd, hname⟩ hn
    · exact hwatch hold j hlive

end Enter

/-! ## The scans -/

/-- What a task knows when it enters a loop; `seen` is the count at the start of
its lookup. -/
def Pre : Proc → Nat → Option Watch → State → Prop
  | .find d name i entries skipped, seen, g, _ =>
    skipped = false → g = some ⟨d, name, seen, i, entries⟩
  | .add d name _ _ _ seen complete, _, g, _ =>
    complete = true → ∃ next entries, entries ≤ next ∧ g = some ⟨d, name, seen, next, entries⟩

/-- What it knows when it has looked at all entries and read all blocks. -/
def Post : Proc → Nat → Ret → Option Watch → State → Prop
  | .find d name _ entries skipped, seen, r, g, _ =>
    (skipped = true → r.skipped = true) ∧
      (r.done = false → r.skipped = false →
        ∃ next, entries ≤ next ∧ g = some ⟨d, name, seen, next, entries⟩)
  | .add .., _, _, _, _ => True

theorem stable_any (P : Option Watch → State → Prop) : Stable contract P :=
  fun _ _ _ _ _ _ h => h.elim

theorem nextBlock_spec {n i ok : Nat} (p : Option Watch → Prop) :
    Holds contract n (nextBlock i ok) (fun g _ => p g) (fun _ g _ => p g) := by
  unfold nextBlock
  refine holds_ite (fun _ => ?_) fun _ => holds_pure fun _ _ _ _ h => h
  refine holds_bind (holds_sleep p) fun _ => ?_
  exact holds_ask (stable_any _) fun _ _ _ _ _ h => h

/-- An entry that does not match is behind the scan. -/
theorem watch_next {d i entries seen : Nat} {name : Name} {s : State}
    (h : (Watch.mk d name seen i entries).Holds s)
    (hm : match_ name ((s.dir d).slot i) = false) : (Watch.mk d name seen (i + 1) entries).Holds s := by
  refine ⟨h.1, ?_⟩
  intro hseen j hj
  obtain ⟨hle, hlt⟩ := h.2 hseen j hj
  dsimp only at hle hlt hj ⊢
  have hne : j ≠ i := by
    rintro rfl
    obtain ⟨-, hin, hname⟩ := hj
    simp [match_, hin, hname] at hm
  omega

theorem find_spec {n : Nat} (hcall : ∀ p seen, Holds contract n (Code.call p) (Pre p seen) (Post p seen))
    (d : Nat) (name : Name) (i entries : Nat) (skipped : Bool) (seen : Nat) :
    Holds contract n (findBody d name i entries skipped)
      (Pre (.find d name i entries skipped) seen) (Post (.find d name i entries skipped) seen) := by
  unfold findBody
  refine holds_ite (fun _ => ?_) fun hend => ?_
  · refine holds_bind (nextBlock_spec fun g => skipped = false → g = some ⟨d, name, seen, i, entries⟩)
      fun ok => ?_
    refine holds_ite (fun _ => ?_) fun _ => ?_
    · refine holds_ite (fun _ => ?_) fun _ => ?_
      · exact holds_pure fun _ _ _ _ _ => ⟨fun _ => rfl, fun _ h => by cases h⟩
      · refine (hcall (.find d name (i + dirEntriesPerBlock) entries true) seen).conseq
          (fun _ _ _ h => by cases h) ?_
        intro r g s hr
        exact ⟨fun _ => hr.1 rfl, fun _ hs => by rw [hr.1 rfl] at hs; cases hs⟩
    · -- the entry is read: the scan is past it unless it matches
      refine holds_bind (R := fun de g _ => match_ name de = false → skipped = false →
        g = some ⟨d, name, seen, i + 1, entries⟩) (holds_act (stable_any _) ?_) fun de => ?_
      · intro G t s hi _ hP _
        refine ⟨trivial, ?_⟩
        by_cases hgo : match_ name ((s.dir d).slot i) = false ∧ skipped = false
        · refine ⟨some ⟨d, name, seen, i + 1, entries⟩, ⟨hi.1, ?_⟩, fun _ _ => rfl⟩
          intro t' w hw
          by_cases ht : t' = t
          · rw [ht, Function.update_self] at hw
            cases hw
            exact watch_next (hi.2 t _ (hP hgo.2)) hgo.1
          · rw [Function.update_of_ne ht] at hw
            exact hi.2 t' w hw
        · refine ⟨G t, ?_, fun hm hs => absurd ⟨hm, hs⟩ hgo⟩
          rw [Function.update_eq_self]
          exact hi
      · refine holds_ite (fun _ => ?_) fun hm => ?_
        · exact holds_pure fun _ _ _ _ _ => ⟨fun h => h, fun h => by cases h⟩
        · exact (hcall (.find d name (i + 1) entries skipped) seen).pre
            fun g _ h => h (by simpa using hm)
  · refine holds_pure fun G t s _ hP => ⟨fun h => h, fun _ hs => ⟨i, by omega, hP hs⟩⟩

theorem add_spec {n : Nat} (hcall : ∀ p seen, Holds contract n (Code.call p) (Pre p seen) (Post p seen))
    (d : Nat) (name : Name) (i inode : Nat) (fresh : Bool) (seen : Nat) (complete : Bool)
    (x : Nat) :
    Holds contract n (addBody d name i inode fresh seen complete)
      (Pre (.add d name i inode fresh seen complete) x)
      (Post (.add d name i inode fresh seen complete) x) := by
  unfold addBody
  refine holds_bind (nextBlock_spec fun g => complete = true →
    ∃ next entries, entries ≤ next ∧ g = some ⟨d, name, seen, next, entries⟩) fun ok => ?_
  refine holds_ite (fun _ => holds_pure fun _ _ _ _ _ => trivial) fun _ => ?_
  refine holds_ite (fun _ => ?_) fun _ => ?_
  · exact hcall (.add d name (i + dirEntriesPerBlock) inode fresh seen complete) x
  · refine holds_bind (holds_read (Q := fun _ g _ => complete = true →
      ∃ next entries, entries ≤ next ∧ g = some ⟨d, name, seen, next, entries⟩) (stable_any _)
      fun _ _ _ _ h => h) fun D => ?_
    refine holds_ite (fun _ => ?_) fun _ => ?_
    · refine holds_bind (R := fun _ _ _ => True) (holds_atom (stable_any _) ?_)
        fun _ => holds_pure fun _ _ _ _ _ => trivial
      rintro G t s hi hP ⟨hc, hseen, hsize⟩
      obtain ⟨next, entries, hle, hg⟩ := hP hc
      refine ⟨trivial, G t, ?_, trivial⟩
      rw [Function.update_eq_self]
      refine enter_inv hi hsize ?_
      -- nobody has added the name since the lookup, which did not find it
      intro j hj
      obtain ⟨h1, h2⟩ := (hi.2 t _ hg).2 hseen j hj
      dsimp only at h1 h2
      omega
    · exact hcall (.add d name (i + 1) inode fresh seen complete) x

theorem call_spec (n : Nat) (p : Proc) (seen : Nat) :
    Holds contract n (Code.call p) (Pre p seen) (Post p seen) := by
  refine holds_call (fun _ _ => stable_any _) ?_ n p seen
  intro m hcall q x
  cases q with
  | find d name i entries skipped => exact find_spec hcall d name i entries skipped x
  | add d name i inode fresh seen complete => exact add_spec hcall d name i inode fresh seen complete x

/-! ## The calls -/

/-- What a caller knows of a name that was looked up. -/
def Looked (name : Name) (f : Found) (g : Option Watch) : Prop :=
  f.found = false → f.complete = true →
    ∃ next entries, entries ≤ next ∧ g = some ⟨f.dir, name.take nameLen, f.seen, next, entries⟩

theorem findEntry_spec (n root d : Nat) (name : Name) :
    Holds contract n (findEntry root d name) (fun _ _ => True) (fun f g _ => Looked name f g) := by
  unfold findEntry
  dsimp only
  generalize hname : name.take nameLen = look
  -- the watch begins with the count and the size of the directory
  refine holds_bind (holds_read (Q := fun seen _ s => s.adds d look = seen) (stable_any _)
    fun _ _ _ _ _ => rfl) fun seen => ?_
  refine holds_bind (R := fun entries g _ => g = some ⟨d, look, seen, 0, entries⟩)
    (holds_act (stable_any _) ?_) fun entries => ?_
  · intro G t s hi _ hseen _
    refine ⟨trivial, _, ⟨hi.1, ?_⟩, rfl⟩
    intro t' w hw
    by_cases ht : t' = t
    · rw [ht, Function.update_self] at hw
      cases hw
      exact ⟨Nat.le_of_eq hseen.symm, fun _ j hj => ⟨Nat.zero_le j, hj.1⟩⟩
    · rw [Function.update_of_ne ht] at hw
      exact hi.2 t' w hw
  -- a lookup for another name, or in another directory, promises nothing
  have hvague : ∀ (dir : Nat) (look' : Name) (P : Option Watch → State → Prop),
      Holds contract n (do
        let r ← Code.call (.find dir look' 0 entries true)
        return (⟨dir, r.done, seen, !r.skipped⟩ : Found)) P (fun f g _ => Looked name f g) := by
    intro dir look' P
    refine holds_bind ((call_spec n (.find dir look' 0 entries true) seen).pre
      fun _ _ _ h => by cases h) fun r => ?_
    refine holds_pure fun G t s _ hr _ hcomplete => ?_
    rw [show r.skipped = true from hr.1 rfl] at hcomplete
    cases hcomplete
  refine holds_ite (fun _ => holds_pure fun _ _ _ _ _ _ h => by cases h) fun _ => ?_
  refine holds_ite (fun _ => hvague d dot _) fun _ => ?_
  refine holds_bind (holds_read (Q := fun _ g _ => g = some ⟨d, look, seen, 0, entries⟩)
    (stable_any _) fun _ _ _ _ h => h) fun covered => ?_
  refine holds_ite (fun _ => ?_) fun _ => ?_
  · refine holds_bind (R := fun _ _ _ => True) ((holds_sleep fun _ => True).pre fun _ _ _ => trivial)
      fun _ => hvague (covered.getD d) look _
  · refine holds_bind ((call_spec n (.find d look 0 entries false) seen).pre fun _ _ h _ => h)
      fun r => ?_
    refine holds_pure fun G t s _ hr hfound hcomplete => ?_
    obtain ⟨next, hle, hg⟩ := hr.2 hfound (by simpa using hcomplete)
    exact ⟨next, entries, hle, by rw [hname]; exact hg⟩

theorem addEntry_spec (n : Nat) (name : Name) (inode : Nat) (fresh : Bool) {f : Found}
    (hf : f.found = false) :
    Holds contract n (addEntry f.dir name inode fresh f.seen f.complete)
      (fun g _ => Looked name f g) (fun _ _ _ => True) := by
  unfold addEntry
  refine holds_ite (fun _ => holds_pure fun _ _ _ _ _ => trivial) fun _ => ?_
  refine holds_bind ((call_spec n (.add f.dir (name.take nameLen) 0 inode fresh f.seen f.complete)
    0).pre fun _ _ h hc => h hf hc) fun r => holds_pure fun _ _ _ _ _ => trivial

/-- `iput` keeps what a task knows. -/
theorem iput_spec {n : Nat} (p : Option Watch → Prop) :
    Holds contract n iput (fun g _ => p g) (fun _ g _ => p g) := holds_sleep p

theorem iput_end {n : Nat} (P : Option Watch → State → Prop) :
    Holds contract n iput P (fun _ _ _ => True) :=
  (iput_spec fun _ => True).pre fun _ _ _ => trivial

theorem ask_spec {n : Nat} (P : Option Watch → State → Prop) :
    Holds contract n (Code.ask : M Nat) P (fun _ => P) :=
  holds_ask (stable_any _) fun _ _ _ _ _ h => h

theorem newInode_spec {n : Nat} (p : Option Watch → Prop) :
    Holds contract n newInode (fun g _ => p g) (fun _ g _ => p g) :=
  holds_bind (holds_sleep p) fun _ => ask_spec _

theorem openCreat_spec (n root d : Nat) (name : Name) :
    Holds contract n (openCreat root d name) (fun _ _ => True) (fun _ _ _ => True) := by
  refine holds_bind (findEntry_spec n root d name) fun f => ?_
  refine holds_ite (fun _ => iput_end _) fun hf => ?_
  refine holds_bind (ask_spec _) fun _ => holds_ite (fun _ => iput_end _) fun _ => ?_
  refine holds_bind (newInode_spec _) fun inode => holds_ite (fun _ => iput_end _) fun _ => ?_
  refine holds_bind (addEntry_spec n name inode false (by simpa using hf)) fun added => ?_
  refine holds_bind ?_ fun _ => iput_end fun _ _ => True
  exact holds_when (fun _ => iput_end _) fun _ _ _ _ _ _ => trivial

theorem sysMknod_spec (n root d : Nat) (name : Name) :
    Holds contract n (sysMknod root d name) (fun _ _ => True) (fun _ _ _ => True) := by
  refine holds_bind (ask_spec _) fun _ => holds_ite (fun _ => iput_end _) fun _ => ?_
  refine holds_bind (findEntry_spec n root d name) fun f => ?_
  refine holds_ite (fun _ => iput_end _) fun hf => ?_
  refine holds_bind (newInode_spec _) fun inode => holds_ite (fun _ => iput_end _) fun _ => ?_
  refine holds_bind (addEntry_spec n name inode false (by simpa using hf)) fun _ => ?_
  exact holds_bind (iput_end _) fun _ => iput_end _

theorem sysMkdir_spec (n root d : Nat) (name : Name) :
    Holds contract n (sysMkdir root d name) (fun _ _ => True) (fun _ _ _ => True) := by
  refine holds_bind (ask_spec _) fun _ => holds_ite (fun _ => iput_end _) fun _ => ?_
  refine holds_bind (findEntry_spec n root d name) fun f => ?_
  refine holds_ite (fun _ => iput_end _) fun hf => ?_
  refine holds_bind (newInode_spec _) fun inode => holds_ite (fun _ => iput_end _) fun _ => ?_
  refine holds_bind (holds_sleep _) fun _ => holds_bind (ask_spec _) fun _ => ?_
  refine holds_ite (fun _ => holds_bind (iput_end _) fun _ => iput_end _) fun _ => ?_
  refine holds_bind (addEntry_spec n name inode true (by simpa using hf)) fun _ => ?_
  exact holds_bind (iput_end _) fun _ => iput_end _

theorem sysLink_spec (n root d : Nat) (name : Name) (oldinode : Nat) :
    Holds contract n (sysLink root d name oldinode) (fun _ _ => True) (fun _ _ _ => True) := by
  refine holds_bind (ask_spec _) fun _ => holds_ite (fun _ => iput_end _) fun _ => ?_
  refine holds_bind (findEntry_spec n root d name) fun f => ?_
  refine holds_ite (fun _ => iput_end _) fun hf => ?_
  refine holds_bind (addEntry_spec n name oldinode false (by simpa using hf)) fun _ => ?_
  exact iput_end _

/-- Every call keeps the contract. -/
theorem starts : Starts contract := by
  intro t p hp G s hi _
  have hstart : ∀ {x : M Unit}, (∀ n, Holds contract n x (fun _ _ => True) (fun _ _ _ => True)) →
      Begins contract t G s x.toProg := by
    intro x hx
    have hkept : contract.inv (Function.update G t (G t)) s := by
      rw [Function.update_eq_self]
      exact hi
    exact Holds.begins hx hkept (fun _ => trivial) fun _ _ _ _ _ _ => trivial
  cases hp with
  | openCreat root d name => exact hstart fun n => openCreat_spec n root d name
  | sysMknod root d name => exact hstart fun n => sysMknod_spec n root d name
  | sysMkdir root d name => exact hstart fun n => sysMkdir_spec n root d name
  | sysLink root d name oldinode => exact hstart fun n => sysLink_spec n root d name oldinode

/-- **Names are unique** in every state that `open(O_CREAT)`, `sys_mknod`,
`sys_mkdir` and `sys_link` can lead to, however they interleave, if every entry
is added after a complete lookup and with no other entry of its name added in
between. -/
theorem names_unique {s : State} (h0 : Unique s) {c : Config State Tag Proc Ret}
    (h : kernel.Reach allow (Config.idle s) c) : Unique c.shared := by
  have hi : contract.inv (fun _ => none) s := ⟨h0, fun _ _ hw => by cases hw⟩
  obtain ⟨G, hG⟩ := reach_idle starts hi (fun _ => trivial) h
  exact hG.inv.1

/-- A directory 1, the root, with nothing but `.` and `..`. -/
def emptyRoot : State where
  dir := fun d => if d = 1 then newDir 1 1 else ⟨0, fun _ => ⟨0, []⟩⟩
  adds := fun _ _ => 0
  covered := fun _ => none

theorem unique_emptyRoot : Unique emptyRoot := by
  intro d i j name h h'
  unfold emptyRoot at h h'
  dsimp only at h h'
  by_cases hd : d = 1
  · rw [if_pos hd] at h h'
    have hdots : dot ≠ dotdot := by decide
    rcases live_newDir h with ⟨rfl, hn⟩ | ⟨rfl, hn⟩ <;>
      rcases live_newDir h' with ⟨rfl, hn'⟩ | ⟨rfl, hn'⟩
    · rfl
    · exact absurd (hn.symm.trans hn') hdots
    · exact absurd (hn'.symm.trans hn) hdots
    · rfl
  · rw [if_neg hd] at h
    exact absurd h.1 (Nat.not_lt_zero i)

/-- Two `open(O_CREAT)`, one of them of the name `a`: the second looks its name up
while the first sleeps in `new_inode`, and both add their entries. -/
def twoCreators (name : Name) : List (Move State Tag Proc Ret Unit) :=
  [.start 0 (openCreat 1 1 [97#8]).toProg, .start 1 (openCreat 1 1 name).toProg] ++
    leg 0 [] ++ leg 0 [1, 1] ++ leg 1 [] ++ leg 1 [1, 1] ++
    leg 0 [5] ++ leg 0 [2] ++ leg 1 [6] ++ leg 1 [2]

theorem twoCreators_ops {name : Name} : ∀ q ∈ programs (twoCreators name), kernel.ops q.1 q.2 := by
  rintro q (_ | ⟨_, _ | ⟨_, ⟨⟩⟩⟩)
  · exact .openCreat 1 1 [97#8]
  · exact .openCreat 1 1 name

/-- The condition of the runs, to be evaluated. -/
def allowed : Tag → State → Bool
  | .enter d i name seen complete, s =>
    complete && s.adds d name == seen && decide (i ≤ (s.dir d).size)

theorem allow_of_allowed : ∀ x s, allowed x s = true → allow x s := by
  rintro ⟨d, i, name, seen, complete⟩ s h
  simpa [allowed, allow, and_assoc] using h

/-- The second file is named `b`: each name is in the directory once. -/
theorem names_unique_two_creators :
    ∃ c, kernel.Reach allow (Config.idle emptyRoot) c ∧ Live (c.shared.dir 1) 2 [97#8] ∧
      Live (c.shared.dir 1) 3 [98#8] ∧ Unique c.shared := by
  have hplay : ((kernel.play allowed (fun (_ : Unit) _ => none) (twoCreators [98#8])
      (Config.idle emptyRoot)).map fun c => decide (Live (c.shared.dir 1) 2 [97#8] ∧
        Live (c.shared.dir 1) 3 [98#8])) = some true := by decide +kernel
  obtain ⟨c, hreach, hlive⟩ := exists_reach allow_of_allowed (by simp) twoCreators_ops hplay
  obtain ⟨h2, h3⟩ := of_decide_eq_true hlive
  exact ⟨c, hreach, h2, h3, names_unique unique_emptyRoot hreach⟩

/-- Both files are named `a`, and the directory holds the name twice. -/
theorem names_twice :
    ¬ ∀ (s : State) (c : Config State Tag Proc Ret), Unique s →
        kernel.Reach (fun _ _ => True) (Config.idle s) c → Unique c.shared := by
  intro hclaim
  have hplay : ((kernel.play (fun _ _ => true) (fun (_ : Unit) _ => none) (twoCreators [97#8])
      (Config.idle emptyRoot)).map fun c => decide (Live (c.shared.dir 1) 2 [97#8] ∧
        Live (c.shared.dir 1) 3 [97#8])) = some true := by decide +kernel
  obtain ⟨c, hreach, hlive⟩ := exists_reach (fun _ _ _ => trivial) (by simp) twoCreators_ops hplay
  obtain ⟨h2, h3⟩ := of_decide_eq_true hlive
  cases hclaim emptyRoot c unique_emptyRoot hreach 1 2 3 _ h2 h3

end Linux011.Fs.Names
