import Linux011.Fs.OpenFile

/-!
# Permission checks — `sys_access`, `permission`, `do_execve`

Each of the three selects the bits of the owner, of the group or of the others
by itself. `sys_access` shifts by 6 for the group as well, so that it looks at
the owner's bits.

* `access_iff`, `mayExec_iff` — what `sys_access` and `do_execve` look at;
* `checks_agree_iff` — the checks agree exactly where the bits of the owner do
  as well as those of the group.
-/

namespace Linux011.Fs.Access

open Linux011.Fs.OpenFile

/-- The real identifiers beside those that `permission` looks at. -/
structure Process extends Task where
  uid : Nat
  gid : Nat

/-- `MAY_EXEC`, `MAY_WRITE` and `MAY_READ`. -/
abbrev Mask := BitVec 3

def mayExecMask : Mask := 1#3

/-- `sys_access` of the inode that `namei` has found. -/
def sysAccess (current : Process) (inode : Inode) (mode : Nat) : Int :=
  let mode := mode &&& 0o7
  let iMode := inode.mode &&& 0o777
  let res :=
    if current.uid = inode.uid then iMode >>> 6
    else if current.gid = inode.gid then iMode >>> 6
    else iMode
  if res &&& 0o7 &&& mode = mode then 0
  else if current.uid = 0 ∧ (mode &&& 1 = 0 ∨ iMode &&& 0o111 ≠ 0) then 0
  else -eacces

/-- The check of `do_execve`. -/
def mayExec (current : Process) (inode : Inode) : Bool :=
  let i :=
    if current.euid = inode.uid then inode.mode >>> 6
    else if current.egid = inode.gid then inode.mode >>> 3
    else inode.mode
  !(decide (i &&& 1 = 0) && !(decide (inode.mode &&& 0o111 ≠ 0) && decide (current.euid = 0)))

/-- The bits of one class grant the mask. -/
def Grants (bits : Nat) (mask : Mask) : Prop := bits &&& mask.toNat &&& 7 = mask.toNat

instance (bits : Nat) (mask : Mask) : Decidable (Grants bits mask) :=
  inferInstanceAs (Decidable (bits &&& mask.toNat &&& 7 = mask.toNat))

/-- Only the group is that of the inode. -/
def ByGroup (current : Process) (inode : Inode) : Prop := current.uid ≠ inode.uid ∧ current.gid = inode.gid

variable {current : Process} {inode : Inode} {mask : Mask}

theorem mask_low (mask : Mask) : mask.toNat &&& 7 = mask.toNat :=
  Nat.and_two_pow_sub_one_of_lt_two_pow mask.isLt

theorem and_swap (a b c : Nat) : a &&& b &&& c = a &&& c &&& b := by
  rw [Nat.and_assoc, Nat.and_comm b, Nat.and_assoc]

theorem grants_congr {a b : Nat} (h : a &&& 7 = b &&& 7) : Grants a mask ↔ Grants b mask := by
  unfold Grants
  rw [and_swap, h, and_swap]

theorem permission_iff (hlinks : inode.nlinks ≠ 0) (hsuper : current.euid ≠ 0) :
    permission current.toTask inode mask.toNat = true ↔
      Grants (if current.euid = inode.uid then inode.mode >>> 6
        else if current.egid = inode.gid then inode.mode >>> 3 else inode.mode) mask := by
  unfold permission Grants
  rw [if_neg fun h => hlinks h.2]
  simp [hsuper]

/-- `sys_access` looks at the owner's bits for the group too. -/
theorem access_iff (hsuper : current.uid ≠ 0) : sysAccess current inode mask.toNat = 0 ↔
    Grants (if current.uid = inode.uid ∨ current.gid = inode.gid then inode.mode >>> 6 else inode.mode) mask := by
  have howner : (inode.mode &&& 0o777) >>> 6 &&& 7 = inode.mode >>> 6 &&& 7 := by
    rw [Nat.shiftRight_and_distrib, Nat.and_assoc]
    rfl
  have hother : inode.mode &&& 0o777 &&& 7 = inode.mode &&& 7 := by
    rw [Nat.and_assoc]
    rfl
  have hres : ∀ res, (if res &&& 7 &&& mask.toNat = mask.toNat then (0 : Int)
      else if current.uid = 0 ∧ (mask.toNat &&& 1 = 0 ∨ inode.mode &&& 0o777 &&& 0o111 ≠ 0) then 0 else -eacces) = 0 ↔
        Grants res mask := by
    intro res
    rw [if_neg fun h : current.uid = 0 ∧ _ => hsuper h.1]
    unfold Grants
    rw [and_swap]
    split_ifs with h
    · exact iff_of_true rfl h
    · exact iff_of_false (by decide) h
  unfold sysAccess
  dsimp only
  rw [mask_low, hres]
  by_cases huid : current.uid = inode.uid
  · rw [if_pos huid, if_pos (Or.inl huid)]
    exact grants_congr howner
  rw [if_neg huid]
  by_cases hgid : current.gid = inode.gid
  · rw [if_pos hgid, if_pos (Or.inr hgid)]
    exact grants_congr howner
  · rw [if_neg hgid, if_neg fun h => h.elim huid hgid]
    exact grants_congr hother

theorem mayExec_iff (hlinks : inode.nlinks ≠ 0) (hsuper : current.euid ≠ 0) :
    mayExec current inode = true ↔ permission current.toTask inode mayExecMask.toNat = true := by
  rw [permission_iff hlinks hsuper]
  unfold mayExec
  generalize (if current.euid = inode.uid then inode.mode >>> 6
    else if current.egid = inode.gid then inode.mode >>> 3 else inode.mode) = bits
  have hgrants : Grants bits mayExecMask ↔ bits &&& 1 = 1 := by
    unfold Grants
    show bits &&& 1 &&& 7 = 1 ↔ bits &&& 1 = 1
    rw [Nat.and_assoc]
    exact Iff.rfl
  rw [hgrants]
  have hbit : bits &&& 1 = 0 ∨ bits &&& 1 = 1 := by
    rw [Nat.and_one_is_mod]
    omega
  rcases hbit with h | h <;> simp [h, hsuper]

/-- **The checks agree** for a process with one user and one group that is not the super-user,
unless it has the inode by its group, and the owner and the group may not do the same. -/
theorem checks_agree_iff (hlinks : inode.nlinks ≠ 0) (huid : current.uid = current.euid)
    (hgid : current.gid = current.egid) (hsuper : current.euid ≠ 0) :
    ((sysAccess current inode mask.toNat = 0 ↔ permission current.toTask inode mask.toNat = true) ∧
      (isReg inode.mode = true →
        (mayExec current inode = true ↔ permission current.toTask inode mayExecMask.toNat = true))) ↔
      (ByGroup current inode → (Grants (inode.mode >>> 6) mask ↔ Grants (inode.mode >>> 3) mask)) := by
  rw [and_iff_left fun _ => mayExec_iff hlinks hsuper, access_iff (huid ▸ hsuper), permission_iff hlinks hsuper,
    ← huid, ← hgid]
  unfold ByGroup
  by_cases hu : current.uid = inode.uid
  · rw [if_pos (Or.inl hu), if_pos hu]
    exact iff_of_true Iff.rfl fun h => absurd hu h.1
  rw [if_neg hu]
  by_cases hg : current.gid = inode.gid
  · rw [if_pos (Or.inr hg), if_pos hg]
    exact ⟨fun h _ => h, fun h => h ⟨hu, hg⟩⟩
  · rw [if_neg hg, if_neg fun h => h.elim hu hg]
    exact iff_of_true Iff.rfl fun h => absurd h.2 hg

/-- A user of group 5. -/
def member : Process where
  euid        := 100
  egid        := 5
  umask       := 0
  leader      := false
  tty         := none
  filp        := fun _ => none
  closeOnExec := fun _ => false
  pwd         := 1
  root        := 1
  executable  := none
  uid         := 100
  gid         := 5

/-- A file of another user and of that group. -/
def fileOf (mode : Nat) : Inode := ⟨mode, 7, 5, 1, 0x301, 0, 1, false, 0, fun _ => 0#8⟩

/-- `rw-r--r--`: the group may not write. -/
theorem checks_disagree : (fileOf 0o100644).nlinks ≠ 0 ∧ member.uid = member.euid ∧ member.gid = member.egid ∧
    member.euid ≠ 0 ∧ sysAccess member (fileOf 0o100644) 2 = 0 ∧
      permission member.toTask (fileOf 0o100644) 2 = false := by
  decide

/-- `rw-r--r--`: the group may read. -/
theorem checks_agree_read :
    ByGroup member (fileOf 0o100644) ∧
      (sysAccess member (fileOf 0o100644) (4#3 : Mask).toNat = 0 ↔
        permission member.toTask (fileOf 0o100644) (4#3 : Mask).toNat = true) := by
  have hgroup : Grants ((fileOf 0o100644).mode >>> 6) 4#3 ↔ Grants ((fileOf 0o100644).mode >>> 3) 4#3 := by
    exact iff_of_true (by decide) (by decide)
  refine ⟨⟨by decide, by decide⟩, ?_⟩
  exact ((checks_agree_iff (by decide) (by decide) (by decide) (by decide)).mpr fun _ => hgroup).1

end Linux011.Fs.Access
