import Mathlib.Data.List.Find
import Linux011.Fs.Path

/-!
# Path resolution is a fold of lookups

A walk along a path holds at most one inode between lookups. `Held s₀ L s` says that the
walk that began in `s₀` now has the references `L` more, and that nothing else changed
but which unused inodes are in core and which are dirty: what every inode is, in core or
on disk, is the same.

* `getEmptyInode_spec`, `iget_spec`, `iput_spec` — the inode table;
* `findLoop_eq`, `findEntry_spec`, `next_spec` — one lookup;
* `getDirLoop_spec`, `baseName_eq` — the two scans of the path;
* `namei_resolves` — `dir_namei` and `namei`, when a slot of the table is unused;
* `namei_needs_slot` — when none is.
-/

namespace Linux011.Fs.Path

open Linux011.Lib
open Linux011.Fs.Coherence (Record Slot rootIno inodesPerBlock lookEmpty lookup lookEmpty_unused
  onDisk_store setInode_self setInode_of_ne)
open Linux011.Fs.OpenFile (isDir isBlk)

variable {s s' s₀ : State} {L : List Nat} {k : Nat}

/-! ## The inode table -/

theorem slot_setSlot (s : State) (k : Nat) (x : Slot) : (s.setSlot k x).slot k = x :=
  Function.update_self ..

theorem slot_setSlot_of_ne {j : Nat} (h : j ≠ k) (x : Slot) : (s.setSlot k x).slot j = s.slot j :=
  Function.update_of_ne h ..

theorem lookup_eq_some {dev nr i : Nat} (h : lookup s.core.inode dev nr = some i) :
    i < nrInode ∧ s.keyOf i = (dev, nr) := by
  have hmem := List.mem_range.mp (List.mem_of_find?_eq_some h)
  have hkey := List.find?_some h
  simp only [Bool.and_eq_true, beq_iff_eq] at hkey
  exact ⟨hmem, Prod.ext hkey.1 hkey.2⟩

theorem lookup_eq_none {dev nr i : Nat} (h : lookup s.core.inode dev nr = none)
    (hi : i < nrInode) : s.keyOf i ≠ (dev, nr) := by
  intro hkey
  have hne := List.find?_eq_none.mp h i (List.mem_range.mpr hi)
  have hdev : (s.core.inode i).dev = dev := congrArg Prod.fst hkey
  have hnum : (s.core.inode i).num = nr := congrArg Prod.snd hkey
  simp [hdev, hnum] at hne

/-- An inode is in a slot, or on disk only. -/
theorem record_cases (s : State) (key : Key) :
    (∃ i, i < nrInode ∧ s.keyOf i = key ∧ s.record key = (s.slot i).d) ∨
    ((∀ i, i < nrInode → s.keyOf i ≠ key) ∧ s.record key = s.core.onDisk key.1 key.2) := by
  unfold State.record
  cases h : lookup s.core.inode key.1 key.2 with
  | some i =>
    obtain ⟨hi, hkey⟩ := lookup_eq_some h
    exact Or.inl ⟨i, hi, hkey, rfl⟩
  | none => exact Or.inr ⟨fun i hi => lookup_eq_none h hi, rfl⟩

theorem record_eq {key : Key} {d : Record}
    (hslot : ∀ i, i < nrInode → s.keyOf i = key → (s.slot i).d = d)
    (hdisk : (∀ i, i < nrInode → s.keyOf i ≠ key) → s.core.onDisk key.1 key.2 = d) :
    s.record key = d := by
  rcases record_cases s key with ⟨i, hi, hkey, hr⟩ | ⟨hno, hr⟩
  · rw [hr]
    exact hslot i hi hkey
  · rw [hr]
    exact hdisk hno

/-- The record of an inode in core. -/
theorem Table.record_slot (h : Table s) {i : Nat} (hi : i < nrInode) (h0 : (s.slot i).dev ≠ 0) :
    s.record (s.keyOf i) = (s.slot i).d := by
  refine record_eq (fun j hj hkey => ?_) fun hno => absurd rfl (hno i hi)
  rw [h.unique i j hi hj h0 hkey]

/-- A walk that began in `s₀` has the references `L`. -/
structure Held (s₀ : State) (L : List Nat) (s : State) : Prop extends Table s where
  super  : s.super = s₀.super
  entry  : s.entry = s₀.entry
  index  : s.index = s₀.index
  read   : s.readable = s₀.readable
  task   : s.root = s₀.root ∧ s.pwd = s₀.pwd ∧ s.euid = s₀.euid ∧ s.egid = s₀.egid
  begins : s.core.start = s₀.core.start
  count  : ∀ i, i < nrInode → (s.slot i).count = (s₀.slot i).count + L.count i
  pinned : ∀ i, i < nrInode → (s₀.slot i).count ≠ 0 →
    s.keyOf i = s₀.keyOf i ∧ s.mount i = s₀.mount i
  loose  : ∀ i, i < nrInode → (s₀.slot i).count = 0 → s.mount i = false
  record : ∀ key, key.1 ≠ 0 → 1 ≤ key.2 → s.record key = s₀.record key

/-- A change of slot `k` that keeps its inode; `L'` has as many more references as the
slot. -/
theorem Held.setSlot (h : Held s₀ L s) {x : Slot} {L' : List Nat} (hk : k < nrInode)
    (hdev : x.dev = (s.slot k).dev) (hnum : x.num = (s.slot k).num) (hd : x.d = (s.slot k).d)
    (hdirt : (s.slot k).dev ≠ 0 → x.dirt = true ∨ x.dirt = (s.slot k).dirt)
    (hidle : (s.slot k).dev = 0 → x.dirt = false)
    (hcount : x.count = (s₀.slot k).count + L'.count k)
    (hother : ∀ j, j ≠ k → L'.count j = L.count j) : Held s₀ L' (s.setSlot k x) := by
  have hkey : ∀ j, (s.setSlot k x).keyOf j = s.keyOf j := by
    intro j
    unfold State.keyOf
    by_cases hj : j = k
    · rw [hj, slot_setSlot, hdev, hnum]
    · rw [slot_setSlot_of_ne hj]
  have hrec : ∀ j, ((s.setSlot k x).slot j).d = (s.slot j).d := by
    intro j
    by_cases hj : j = k
    · rw [hj, slot_setSlot, hd]
    · rw [slot_setSlot_of_ne hj]
  have hdevs : ∀ j, ((s.setSlot k x).slot j).dev = (s.slot j).dev := fun j => congrArg Prod.fst (hkey j)
  have hnums : ∀ j, ((s.setSlot k x).slot j).num = (s.slot j).num := fun j => congrArg Prod.snd (hkey j)
  refine ⟨⟨?_, ?_, ?_, ?_, h.blocks⟩, h.super, h.entry, h.index, h.read, h.task, h.begins, ?_, ?_,
    h.loose, ?_⟩
  · intro i j hi hj h0 hij
    rw [hkey, hkey] at hij
    rw [hdevs] at h0
    exact h.unique i j hi hj h0 hij
  · intro j hj h0
    rw [hdevs] at h0
    rw [hrec, hdevs, hnums]
    by_cases hjk : j = k
    · subst hjk
      rw [slot_setSlot]
      rcases hdirt h0 with hx | hx
      · exact Or.inl hx
      · rw [hx]
        exact h.clean j hj h0
    · rw [slot_setSlot_of_ne hjk]
      exact h.clean j hj h0
  · intro j hj h0
    rw [hdevs] at h0
    by_cases hjk : j = k
    · subst hjk
      rw [slot_setSlot]
      exact hidle h0
    · rw [slot_setSlot_of_ne hjk]
      exact h.idle j hj h0
  · intro j hj h0
    rw [hdevs] at h0
    rw [hdevs, hnums]
    exact h.known j hj h0
  · intro j hj
    by_cases hjk : j = k
    · subst hjk
      rw [slot_setSlot]
      exact hcount
    · rw [slot_setSlot_of_ne hjk, hother j hjk]
      exact h.count j hj
  · intro j hj h0
    rw [hkey]
    exact h.pinned j hj h0
  · intro key h0 h1
    rw [← h.record key h0 h1]
    rcases record_cases s key with ⟨i, hi, hik, hr⟩ | ⟨hno, hr⟩
    · rw [hr, ← hrec i]
      refine record_eq (fun j hj hjk => ?_) fun hno => absurd ((hkey i).trans hik) (hno i hi)
      rw [hkey] at hjk
      have hdev0 : (s.slot i).dev ≠ 0 := by
        have hfst : (s.slot i).dev = key.1 := congrArg Prod.fst hik
        rw [hfst]
        exact h0
      rw [h.unique i j hi hj hdev0 (hjk.trans hik.symm)]
    · rw [hr]
      refine record_eq (fun j hj hjk => ?_) fun _ => rfl
      rw [hkey] at hjk
      exact absurd hjk (hno j hj)

/-- The slots have the same inodes. -/
def SameKeys (s s' : State) : Prop := ∀ j, s'.keyOf j = s.keyOf j

theorem keyOf_dev {key : Key} (h : s.keyOf k = key) : (s.slot k).dev = key.1 := congrArg Prod.fst h

theorem keyOf_num {key : Key} (h : s.keyOf k = key) : (s.slot k).num = key.2 := congrArg Prod.snd h

/-- `write_inode` changes no inode. -/
theorem Held.store (h : Held s₀ L s) (hk : k < nrInode) (h0 : (s.slot k).dev ≠ 0) :
    Held s₀ L { s with core := s.core.store k } ∧
      SameKeys s { s with core := s.core.store k } := by
  have hslot : ({ s with core := s.core.store k } : State).slot k = { s.slot k with dirt := false } :=
    Function.update_self ..
  have hother : ∀ j, j ≠ k → ({ s with core := s.core.store k } : State).slot j = s.slot j :=
    fun j hj => Function.update_of_ne hj ..
  have hdisk : ∀ dev num, 1 ≤ num → (s.core.store k).onDisk dev num =
      if dev = (s.slot k).dev ∧ num = (s.slot k).num then (s.slot k).d
      else s.core.onDisk dev num := fun dev num => onDisk_store (h.known k hk h0).2
  generalize hs : ({ s with core := s.core.store k } : State) = s' at hslot hother ⊢
  have hcore : s'.core = s.core.store k := by
    rw [← hs]
  rw [← hcore] at hdisk
  -- only the mark changes, and the record on disk
  have hkey : SameKeys s s' := by
    intro j
    unfold State.keyOf
    by_cases hj : j = k
    · rw [hj, hslot]
    · rw [hother j hj]
  have hrec : ∀ j, (s'.slot j).d = (s.slot j).d := by
    intro j
    by_cases hj : j = k
    · rw [hj, hslot]
    · rw [hother j hj]
  have hdevs : ∀ j, (s'.slot j).dev = (s.slot j).dev := fun j => keyOf_dev (hkey j)
  have hnums : ∀ j, (s'.slot j).num = (s.slot j).num := fun j => keyOf_num (hkey j)
  have hcount : ∀ j, (s'.slot j).count = (s.slot j).count := by
    intro j
    by_cases hj : j = k
    · rw [hj, hslot]
    · rw [hother j hj]
  have hrest : s'.super = s.super ∧ s'.entry = s.entry ∧ s'.index = s.index ∧
      s'.readable = s.readable ∧ s'.mount = s.mount ∧ s'.core.start = s.core.start ∧
      s'.root = s.root ∧ s'.pwd = s.pwd ∧ s'.euid = s.euid ∧ s'.egid = s.egid := by
    rw [← hs]
    exact ⟨rfl, rfl, rfl, rfl, rfl, rfl, rfl, rfl, rfl, rfl⟩
  obtain ⟨hsuper, hentry, hindex, hread, hmount, hstart, hroot, hpwd, heuid, hegid⟩ := hrest
  have hget : ∀ dev, s'.getSuper dev = s.getSuper dev := by
    intro dev
    unfold State.getSuper
    rw [hsuper]
  refine ⟨⟨⟨?_, ?_, ?_, ?_, ?_⟩, hsuper.trans h.super, hentry.trans h.entry, hindex.trans h.index,
    hread.trans h.read, ?_, hstart.trans h.begins, ?_, ?_, ?_, ?_⟩, hkey⟩
  · intro i j hi hj hne hij
    rw [hkey, hkey] at hij
    rw [hdevs] at hne
    exact h.unique i j hi hj hne hij
  · intro j hj hne
    rw [hdevs] at hne
    rw [hrec, hdevs, hnums, hdisk _ _ (h.known j hj hne).2]
    by_cases hjk : j = k
    · subst hjk
      rw [if_pos ⟨rfl, rfl⟩]
      exact Or.inr rfl
    · rw [if_neg fun he => hjk (h.unique k j hk hj h0 (Prod.ext he.1 he.2)).symm, hother j hjk]
      exact h.clean j hj hne
  · intro j hj hz
    rw [hdevs] at hz
    by_cases hjk : j = k
    · rw [hjk, hslot]
    · rw [hother j hjk]
      exact h.idle j hj hz
  · intro j hj hne
    rw [hdevs] at hne
    rw [hdevs, hnums, hget]
    exact h.known j hj hne
  · intro dev num hd
    rw [hget] at hd
    unfold State.inodeBlock
    rw [hread, hstart]
    exact h.blocks dev num hd
  · rw [hroot, hpwd, heuid, hegid]
    exact h.task
  · intro j hj
    rw [hcount]
    exact h.count j hj
  · intro j hj hne
    rw [hkey, hmount]
    exact h.pinned j hj hne
  · intro j hj hz
    rw [hmount]
    exact h.loose j hj hz
  · intro key hkd hkn
    rw [← h.record key hkd hkn]
    rcases record_cases s key with ⟨i, hi, hik, hr⟩ | ⟨hno, hr⟩
    · rw [hr, ← hrec i]
      refine record_eq (fun j hj hjk => ?_) fun hno => absurd ((hkey i).trans hik) (hno i hi)
      rw [hkey] at hjk
      have hne : (s.slot i).dev ≠ 0 := by
        rw [keyOf_dev hik]
        exact hkd
      rw [h.unique i j hi hj hne (hjk.trans hik.symm)]
    · rw [hr]
      refine record_eq (fun j hj hjk => ?_) fun _ => ?_
      · rw [hkey] at hjk
        exact absurd hjk (hno j hj)
      · rw [hdisk _ _ hkn, if_neg]
        rintro ⟨he1, he2⟩
        exact hno k hk (Prod.ext he1.symm he2.symm)

/-- Nothing stops the walk. -/
def Never (_ : Panic) (_ : State) : Prop := False

theorem writeInode_spec (h : Held s₀ L s) (hk : k < nrInode) :
    wp (writeInode k) (fun _ s' => Held s₀ L s' ∧ SameKeys s s' ∧ (s'.slot k).dirt = false)
      Never s := by
  unfold writeInode
  rw [wp_bind, wp_get, wp_ite]
  refine ⟨fun hx => ?_, fun hx => ?_⟩
  · refine ⟨h, fun _ => rfl, ?_⟩
    rcases hx with hx | hx
    · exact hx
    · exact h.idle k hk hx
  · have h0 : (s.slot k).dev ≠ 0 := fun h0 => hx (Or.inr h0)
    have hsuper := (h.known k hk h0).1
    rw [if_neg hsuper, if_neg (by rw [h.blocks _ _ hsuper]; decide), wp_set]
    obtain ⟨hheld, hkeys⟩ := h.store hk h0
    refine ⟨hheld, hkeys, ?_⟩
    show (Function.update s.core.inode k _ k).dirt = false
    rw [Function.update_self]

theorem syncInodes_spec (h : Held s₀ L s) :
    wp syncInodes (fun _ s' => Held s₀ L s' ∧ SameKeys s s') Never s := by
  refine wp_upTo (I := fun _ s' => Held s₀ L s' ∧ SameKeys s s') (fun i s' hi hs' => ?_)
    ⟨h, fun _ => rfl⟩
  refine wp_mono (writeInode_spec hs'.1 hi) ?_ fun _ _ he => he
  rintro _ s'' ⟨hheld, hkeys, -⟩
  exact ⟨hheld, fun j => (hkeys j).trans (hs'.2 j)⟩

/-- The record of a slot is that of its inode when the walk began. -/
theorem Held.slot_record (h : Held s₀ L s) (hk : k < nrInode) (h0 : (s.slot k).dev ≠ 0) :
    (s.slot k).d = s₀.record (s.keyOf k) := by
  rw [← h.record (s.keyOf k) h0 (h.known k hk h0).2, h.record_slot hk h0]

theorem sameKeys_count (s : State) (k n : Nat) : SameKeys s (s.setSlot k { s.slot k with count := n }) := by
  intro j
  unfold State.keyOf
  by_cases hj : j = k
  · rw [hj, slot_setSlot]
  · rw [slot_setSlot_of_ne hj]

theorem addCount_spec (h : Held s₀ L s) (hk : k < nrInode) :
    wp (addCount k) (fun _ s' => Held s₀ (k :: L) s' ∧ SameKeys s s') Never s := by
  unfold addCount
  rw [wp_modify]
  refine ⟨h.setSlot hk rfl rfl rfl (fun _ => Or.inr rfl) (h.idle k hk) ?_ ?_, ?_⟩
  · show (s.slot k).count + 1 = _
    rw [h.count k hk, List.count_cons_self]
    omega
  · intro j hj
    rw [List.count_cons_of_ne (Ne.symm hj)]
  · exact sameKeys_count s k _

theorem dropCount_spec (h : Held s₀ (k :: L) s) (hk : k < nrInode) :
    wp (dropCount k) (fun _ s' => Held s₀ L s' ∧ SameKeys s s') Never s := by
  unfold dropCount
  rw [wp_modify]
  refine ⟨h.setSlot hk rfl rfl rfl (fun _ => Or.inr rfl) (h.idle k hk) ?_ ?_, ?_⟩
  · show (s.slot k).count - 1 = _
    rw [h.count k hk, List.count_cons_self]
    omega
  · intro j hj
    rw [List.count_cons_of_ne (Ne.symm hj)]
  · exact sameKeys_count s k _

/-- The slot was in use, has no inode, or has one with a link. -/
def Stays (s₀ s : State) (k : Nat) : Prop :=
  (s₀.slot k).count ≠ 0 ∨ (s.slot k).dev = 0 ∨ (s₀.record (s.keyOf k)).nlinks ≠ 0

theorem putBody_spec (h : Held s₀ (k :: L) s) (hk : k < nrInode) (h0 : (s.slot k).dev ≠ 0)
    (hstays : Stays s₀ s k) :
    wp (putBody k) (fun _ s' => Held s₀ L s' ∧ SameKeys s s') Never s := by
  unfold putBody
  rw [wp_bind, wp_get, wp_ite]
  refine ⟨fun _ => dropCount_spec h hk, fun hcount => ?_⟩
  have hlinks : (s.slot k).d.nlinks ≠ 0 := by
    rw [h.slot_record hk h0]
    rcases hstays with hs | hs | hs
    · rw [h.count k hk, List.count_cons_self] at hcount
      omega
    · exact absurd hs h0
    · exact hs
  rw [if_neg hlinks, wp_bind]
  refine wp_mono (writeInode_spec h hk) ?_ fun _ _ he => he
  rintro _ s₁ ⟨h₁, hkeys₁, -⟩
  refine wp_mono (dropCount_spec h₁ hk) ?_ fun _ _ he => he
  rintro _ s₂ ⟨h₂, hkeys₂⟩
  exact ⟨h₂, fun j => (hkeys₂ j).trans (hkeys₁ j)⟩

theorem iput_spec (h : Held s₀ (k :: L) s) (hk : k < nrInode) (hstays : Stays s₀ s k) :
    wp (iput k) (fun _ s' => Held s₀ L s' ∧ SameKeys s s') Never s := by
  have hcount : (s.slot k).count ≠ 0 := by
    rw [h.count k hk, List.count_cons_self]
    omega
  unfold iput
  rw [wp_bind, wp_get, if_neg hcount, wp_ite]
  refine ⟨fun _ => dropCount_spec h hk, fun h0 => ?_⟩
  rw [wp_ite]
  refine ⟨fun _ => ?_, fun _ => putBody_spec h hk h0 hstays⟩
  rw [wp_bind]
  refine wp_mono (syncInodes_spec h) ?_ fun _ _ he => he
  rintro _ s₁ ⟨h₁, hkeys₁⟩
  have hdev : (s₁.slot k).dev = (s.slot k).dev := keyOf_dev (hkeys₁ k)
  have hstays₁ : Stays s₀ s₁ k := by
    unfold Stays
    rw [hkeys₁ k, hdev]
    exact hstays
  refine wp_mono (putBody_spec h₁ hk (by rw [hdev]; exact h0) hstays₁) ?_ fun _ _ he => he
  rintro _ s₂ ⟨h₂, hkeys₂⟩
  exact ⟨h₂, fun j => (hkeys₂ j).trans (hkeys₁ j)⟩

/-- A slot that was not in use gets another inode, as it is on disk, or none. -/
theorem Held.replace (h : Held s₀ L s) {x : Slot} {L' : List Nat} (hk : k < nrInode)
    (hfree : (s₀.slot k).count = 0)
    (hold : (s.slot k).dev ≠ 0 → (s.slot k).d = s.core.onDisk (s.slot k).dev (s.slot k).num)
    (hdirt : x.dirt = false)
    (hnew : x.dev ≠ 0 → (∀ j, j < nrInode → j ≠ k → s.keyOf j ≠ (x.dev, x.num)) ∧
      x.d = s.core.onDisk x.dev x.num ∧ s.getSuper x.dev ≠ none ∧ 1 ≤ x.num)
    (hcount : x.count = L'.count k) (hother : ∀ j, j ≠ k → L'.count j = L.count j) :
    Held s₀ L' { s.setSlot k x with mount := Function.update s.mount k false } := by
  have hslot : ({ s.setSlot k x with mount := Function.update s.mount k false } : State).slot k = x :=
    Function.update_self ..
  have hne : ∀ j, j ≠ k →
      ({ s.setSlot k x with mount := Function.update s.mount k false } : State).slot j = s.slot j :=
    fun j hj => Function.update_of_ne hj ..
  have hrest : ∀ s', s' = ({ s.setSlot k x with mount := Function.update s.mount k false } : State) →
      (∀ dev, s'.getSuper dev = s.getSuper dev) ∧
      (∀ dev num, s'.core.onDisk dev num = s.core.onDisk dev num) ∧
      s'.super = s.super ∧ s'.entry = s.entry ∧ s'.index = s.index ∧ s'.readable = s.readable ∧
      s'.core.start = s.core.start ∧ s'.mount = Function.update s.mount k false ∧
      (s'.root = s.root ∧ s'.pwd = s.pwd ∧ s'.euid = s.euid ∧ s'.egid = s.egid) := by
    rintro s' rfl
    exact ⟨fun _ => rfl, fun _ _ => rfl, rfl, rfl, rfl, rfl, rfl, rfl, rfl, rfl, rfl, rfl⟩
  obtain ⟨hget, hdisk, hsuper, hentry, hindex, hread, hstart, hmount, htask⟩ := hrest _ rfl
  generalize ({ s.setSlot k x with mount := Function.update s.mount k false } : State) = s'
    at hslot hne hget hdisk hsuper hentry hindex hread hstart hmount htask ⊢
  have hkey : ∀ j, j ≠ k → s'.keyOf j = s.keyOf j := by
    intro j hj
    unfold State.keyOf
    rw [hne j hj]
  have hkeyk : s'.keyOf k = (x.dev, x.num) := by
    unfold State.keyOf
    rw [hslot]
  refine ⟨⟨?_, ?_, ?_, ?_, ?_⟩, hsuper.trans h.super, hentry.trans h.entry, hindex.trans h.index,
    hread.trans h.read, ?_, hstart.trans h.begins, ?_, ?_, ?_, ?_⟩
  · intro i j hi hj h0 hij
    by_cases hik : i = k
    · by_cases hjk : j = k
      · rw [hik, hjk]
      · rw [hik, hslot] at h0
        rw [hik, hkeyk, hkey j hjk] at hij
        exact absurd hij ((hnew h0).1 j hj hjk)
    · rw [hne i hik] at h0
      rw [hkey i hik] at hij
      by_cases hjk : j = k
      · rw [hjk, hkeyk] at hij
        have hx : x.dev = (s.slot i).dev := congrArg Prod.fst hij
        rw [← hx] at h0
        exact absurd hij.symm ((hnew h0).1 i hi hik)
      · rw [hkey j hjk] at hij
        exact h.unique i j hi hj h0 hij
  · intro j hj h0
    by_cases hjk : j = k
    · rw [hjk, hslot] at h0 ⊢
      rw [hdisk]
      exact Or.inr (hnew h0).2.1
    · rw [hne j hjk] at h0 ⊢
      rw [hdisk]
      exact h.clean j hj h0
  · intro j hj h0
    by_cases hjk : j = k
    · rw [hjk, hslot]
      exact hdirt
    · rw [hne j hjk] at h0 ⊢
      exact h.idle j hj h0
  · intro j hj h0
    by_cases hjk : j = k
    · rw [hjk, hslot] at h0 ⊢
      rw [hget]
      exact (hnew h0).2.2
    · rw [hne j hjk] at h0 ⊢
      rw [hget]
      exact h.known j hj h0
  · intro dev num hd
    rw [hget] at hd
    unfold State.inodeBlock
    rw [hread, hstart]
    exact h.blocks dev num hd
  · rw [htask.1, htask.2.1, htask.2.2.1, htask.2.2.2]
    exact h.task
  · intro j hj
    by_cases hjk : j = k
    · rw [hjk, hslot, hfree, hcount, Nat.zero_add]
    · rw [hne j hjk, hother j hjk]
      exact h.count j hj
  · intro j hj h0
    have hjk : j ≠ k := by
      rintro rfl
      exact h0 hfree
    rw [hkey j hjk, hmount, Function.update_of_ne hjk]
    exact h.pinned j hj h0
  · intro j hj hz
    rw [hmount]
    by_cases hjk : j = k
    · rw [hjk, Function.update_self]
    · rw [Function.update_of_ne hjk]
      exact h.loose j hj hz
  · intro key h0 h1
    rw [← h.record key h0 h1]
    -- an inode in slot `k`, before or after, is as it is on disk
    rcases record_cases s key with ⟨i, hi, hik, hr⟩ | ⟨hno, hr⟩
    · have hi0 : (s.slot i).dev ≠ 0 := by
        rw [keyOf_dev hik]
        exact h0
      by_cases hk' : i = k
      · have hd : s.record key = s.core.onDisk key.1 key.2 := by
          rw [hr, hk', hold (by rw [← hk']; exact hi0), ← hk', keyOf_dev hik, keyOf_num hik]
        rw [hd]
        refine record_eq (fun j hj hjk => ?_) fun _ => hdisk _ _
        by_cases hj' : j = k
        · rw [hj', hkeyk] at hjk
          rw [← hjk] at h0
          rw [hj', hslot, (hnew h0).2.1, ← hjk]
        · rw [hkey j hj'] at hjk
          exact absurd (h.unique i j hi hj hi0 (hjk.trans hik.symm)) (by rw [hk']; exact Ne.symm hj')
      · rw [hr, ← hne i hk']
        refine record_eq (fun j hj hjk => ?_)
          fun hno => absurd ((hkey i hk').trans hik) (hno i hi)
        by_cases hj' : j = k
        · rw [hj', hkeyk] at hjk
          rw [← hjk] at h0
          exact absurd (hik.trans hjk.symm) ((hnew h0).1 i hi hk')
        · rw [hkey j hj'] at hjk
          rw [h.unique i j hi hj hi0 (hjk.trans hik.symm)]
    · rw [hr]
      refine record_eq (fun j hj hjk => ?_) fun _ => hdisk _ _
      by_cases hj' : j = k
      · rw [hj', hkeyk] at hjk
        rw [← hjk] at h0
        rw [hj', hslot, (hnew h0).2.1, ← hjk]
      · rw [hkey j hj'] at hjk
        exact absurd hjk (hno j hj)

/-- If the scan finds no slot, it has been at all of them. -/
theorem lookEmpty_none {inode : Nat → Slot} {m last : Nat} {found : Option Nat}
    (h : (lookEmpty inode m last found).2 = none) :
    found = none ∧ ∀ t, t < m → (inode ((last + 1 + t) % nrInode)).count ≠ 0 := by
  induction m generalizing last found with
  | zero => exact ⟨h, fun t ht => absurd ht (Nat.not_lt_zero t)⟩
  | succ m ih =>
    unfold lookEmpty at h
    dsimp only at h
    split at h
    · split at h
      · cases h
      · cases (ih h).1
    · next hused =>
      obtain ⟨hfound, hrest⟩ := ih h
      refine ⟨hfound, fun t ht => ?_⟩
      cases t with
      | zero => exact hused
      | succ t =>
        have heq : (last + 1 + (t + 1)) % nrInode = ((last + 1) % nrInode + 1 + t) % nrInode := by
          unfold nrInode
          omega
        rw [heq]
        exact hrest t (by omega)

theorem lookEmpty_some {inode : Nat → Slot} {e last : Nat} (he : e < nrInode)
    (hzero : (inode e).count = 0) : (lookEmpty inode nrInode last none).2 ≠ none := by
  intro h
  refine (lookEmpty_none h).2 ((e + nrInode - (last + 1) % nrInode) % nrInode)
    (Nat.mod_lt _ (by decide)) ?_
  have heq : (last + 1 + (e + nrInode - (last + 1) % nrInode) % nrInode) % nrInode = e := by
    unfold nrInode at he ⊢
    omega
  rw [heq]
  exact hzero

/-- A slot is unused. -/
def Room (s : State) : Prop := ∃ e, e < nrInode ∧ (s.slot e).count = 0

/-- What `get_empty_inode` gives: a slot without an inode, and the reference to it. -/
structure Empty (s₀ : State) (e : Nat) (s : State) : Prop where
  held : Held s₀ [e] s
  lt   : e < nrInode
  free : (s₀.slot e).count = 0
  dev  : (s.slot e).dev = 0

theorem getEmptyInode_spec (h : Held s₀ [] s) (hroom : Room s₀) :
    wp getEmptyInode (fun e s' => Empty s₀ e s') Never s := by
  obtain ⟨e₀, he₀, hzero⟩ := hroom
  have hcount : ∀ i, i < nrInode → (s.slot i).count = (s₀.slot i).count := h.count
  unfold getEmptyInode
  rw [wp_bind, wp_get, wp_bind, wp_set]
  have hlast : Held s₀ [] { s with core := { s.core with
      last := (lookEmpty s.core.inode nrInode s.core.last none).1 } } :=
    ⟨⟨h.unique, h.clean, h.idle, h.known, h.blocks⟩, h.super, h.entry, h.index, h.read, h.task,
      h.begins, h.count, h.pinned, h.loose, h.record⟩
  cases hfound : (lookEmpty s.core.inode nrInode s.core.last none).2 with
  | none => exact absurd hfound (lookEmpty_some he₀ ((hcount e₀ he₀).trans hzero))
  | some e =>
    obtain ⟨he, hunused⟩ := lookEmpty_unused (fun _ hn => by cases hn) hfound
    have hfree : (s₀.slot e).count = 0 := (hcount e he).symm.trans hunused
    dsimp only
    rw [wp_bind]
    refine wp_mono (writeInode_spec hlast he) ?_ fun _ _ he => he
    rintro _ s₁ ⟨h₁, -, hclean⟩
    rw [wp_bind, wp_get, if_neg (by rw [hclean]; decide), wp_bind, wp_modify, wp_pure]
    refine ⟨h₁.replace he hfree ?_ rfl (fun h0 => absurd rfl h0) ?_ ?_, he, hfree, ?_⟩
    · intro h0
      rcases h₁.clean e he h0 with hd | hd
      · rw [hclean] at hd
        cases hd
      · exact hd
    · exact (List.count_singleton_self ..).symm
    · intro j hj
      rw [List.count_cons_of_ne (Ne.symm hj)]
    · show (Function.update s₁.core.inode e _ e).dev = 0
      rw [Function.update_self]
      rfl

/-! ## Mounts -/

variable {T : Key → Prop}

theorem dev_of_getSuper {dev : Nat} (h : s.getSuper dev ≠ none) : dev ≠ 0 := by
  intro h0
  unfold State.getSuper at h
  rw [if_pos h0] at h
  exact h rfl

theorem Held.getSuper (h : Held s₀ L s) (dev : Nat) : s.getSuper dev = s₀.getSuper dev := by
  unfold State.getSuper
  rw [h.super]

theorem Held.superOn (h : Held s₀ L s) (i : Nat) : s.superOn i = s₀.superOn i := by
  unfold State.superOn
  rw [h.super]

/-- Nothing is mounted on an inode whose slot does not say so. -/
theorem through_self (W : WellFormed s₀ T) (h : Held s₀ L s) {key : Key}
    (hno : ∀ i, i < nrInode → s.keyOf i = key → s.mount i = false) : s₀.through key = key := by
  unfold State.through
  split
  · next p hp =>
    exfalso
    have hlt := List.mem_range.mp (List.mem_of_find?_eq_some hp)
    have hany := List.find?_some hp
    obtain ⟨j, hj, hon⟩ := (Option.any_eq_true _ _).mp hany
    rw [Bool.and_eq_true, beq_iff_eq] at hon
    obtain ⟨hjlt, hjcount, -⟩ := W.supers p j hlt hj
    obtain ⟨hkey, hmount⟩ := h.pinned j hjlt hjcount
    have hfalse := hno j hjlt (hkey.trans hon.2)
    rw [hmount, hon.1] at hfalse
    cases hfalse
  · rfl

/-- A slot that says so leads to the root mounted there. -/
theorem through_mount (W : WellFormed s₀ T) (h : Held s₀ L s) {i : Nat} (hi : i < nrInode)
    (hmount : s.mount i = true) : ∃ p, s.superOn i = some p ∧ p < nrSuper ∧
      s₀.through (s.keyOf i) = ((s.super p).dev, rootIno) ∧ (s₀.super p).imount = some i := by
  have hused : (s₀.slot i).count ≠ 0 := by
    intro hz
    rw [h.loose i hi hz] at hmount
    cases hmount
  obtain ⟨hkey, hm⟩ := h.pinned i hi hused
  rw [hm] at hmount
  obtain ⟨-, h0, -, hsuper⟩ := W.mounts i hi hmount
  rw [h.superOn, h.super, hkey]
  obtain ⟨p, hp⟩ := Option.ne_none_iff_exists'.mp hsuper
  have hlt := List.mem_range.mp (List.mem_of_find?_eq_some hp)
  refine ⟨p, hp, hlt, ?_, by simpa using List.find?_some hp⟩
  have heq : (List.range nrSuper).find? (fun q => (s₀.super q).imount.any fun j =>
      s₀.mount j && s₀.keyOf j == s₀.keyOf i) = s₀.superOn i := by
    refine List.find?_congr fun q hq => ?_
    cases himount : (s₀.super q).imount with
    | none => rfl
    | some j =>
      by_cases hji : j = i
      · subst hji
        simp [hmount]
      · have hne : s₀.keyOf j ≠ s₀.keyOf i := by
          intro hk
          exact hji (W.unique i j hi (W.supers q j (List.mem_range.mp hq) himount).1 h0 hk).symm
        show (s₀.mount j && s₀.keyOf j == s₀.keyOf i) = (some j == some i)
        rw [beq_false_of_ne hne, Bool.and_false, beq_false_of_ne fun hs => hji (Option.some.inj hs)]
  unfold State.through
  rw [heq, hp]

theorem readInode_wp {Q : Unit → State → Prop} (hsuper : s.getSuper (s.slot k).dev ≠ none)
    (hread : s.readable (s.slot k).dev (s.inodeBlock (s.slot k).dev (s.slot k).num) = true) :
    wp (readInode k) Q Never s ↔
      Q () (s.setSlot k { s.slot k with d := s.core.onDisk (s.slot k).dev (s.slot k).num }) := by
  unfold readInode
  rw [wp_bind, wp_get]
  dsimp only
  rw [if_neg hsuper, if_neg (by rw [hread]; decide), wp_set]

/-- `iget` of an inode that nothing is mounted on. -/
theorem scan_plain (W : WellFormed s₀ T) {n dev nr e : Nat} (h : Empty s₀ e s)
    (hT : T (dev, nr)) (hplain : ∀ i, i < nrInode → s.keyOf i = (dev, nr) → s.mount i = false) :
    wp (scan (n + 1) dev nr e)
      (fun i s' => Held s₀ [i] s' ∧ i < nrInode ∧ s'.keyOf i = (dev, nr)) Never s := by
  obtain ⟨hsuper, h1, -⟩ := W.linked (dev, nr) hT
  have h0 : dev ≠ 0 := dev_of_getSuper hsuper
  rw [← h.held.getSuper] at hsuper
  unfold scan
  rw [wp_bind, wp_get]
  cases hlook : lookup s.core.inode dev nr with
  | none =>
    dsimp only
    have hmount : s.mount e = false := h.held.loose e h.lt h.free
    have hslot := slot_setSlot s e { s.slot e with dev := dev, num := nr }
    rw [wp_bind, wp_set, wp_bind, readInode_wp (by rw [hslot]; exact hsuper)
      (by rw [hslot]; exact h.held.blocks dev nr hsuper), wp_pure, hslot]
    have hfinal : Held s₀ [e] { s.setSlot e { s.slot e with
        dev := dev, num := nr, d := s.core.onDisk dev nr } with
        mount := Function.update s.mount e false } := by
      refine h.held.replace h.lt h.free (fun hne => absurd h.dev hne) (h.held.idle e h.lt h.dev) ?_
        ?_ fun _ _ => rfl
      · exact fun _ => ⟨fun j hj _ => lookup_eq_none hlook hj, rfl, hsuper, h1⟩
      · show (s.slot e).count = _
        rw [h.held.count e h.lt, h.free, Nat.zero_add]
    have heq : (s.setSlot e { s.slot e with dev := dev, num := nr }).setSlot e { s.slot e with
        dev := dev, num := nr, d := s.core.onDisk dev nr } =
        { s.setSlot e { s.slot e with dev := dev, num := nr, d := s.core.onDisk dev nr } with
          mount := Function.update s.mount e false } := by
      have hself : Function.update s.mount e false = s.mount := by
        rw [← hmount, Function.update_eq_self]
      rw [hself]
      unfold State.setSlot Coherence.State.setInode
      dsimp only
      rw [Function.update_idem]
    refine ⟨?_, h.lt, ?_⟩
    · rw [← heq] at hfinal
      exact hfinal
    · unfold State.keyOf
      rw [slot_setSlot]
  | some i =>
    obtain ⟨hi, hkey⟩ := lookup_eq_some hlook
    dsimp only
    rw [wp_bind]
    refine wp_mono (addCount_spec h.held hi) ?_ fun _ _ he => he
    rintro _ s₁ ⟨h₁, hkeys₁⟩
    rw [hplain i hi hkey, if_neg (by decide), wp_bind]
    have hswap : Held s₀ [e, i] s₁ :=
      { h₁ with count := fun j hj => by rw [h₁.count j hj, (List.Perm.swap e i []).count_eq] }
    have hstays : Stays s₀ s₁ e := Or.inr (Or.inl ((keyOf_dev (hkeys₁ e)).trans h.dev))
    refine wp_mono (iput_spec hswap h.lt hstays) ?_ fun _ _ he => he
    rintro _ s₂ ⟨h₂, hkeys₂⟩
    rw [wp_pure]
    exact ⟨h₂, hi, (hkeys₂ i).trans ((hkeys₁ i).trans hkey)⟩

/-- The root of a device is not covered. -/
theorem mount_root (W : WellFormed s₀ T) (h : Held s₀ L s) {dev i : Nat} (hi : i < nrInode)
    (hkey : s.keyOf i = (dev, rootIno)) : s.mount i = false := by
  by_cases hz : (s₀.slot i).count = 0
  · exact h.loose i hi hz
  · obtain ⟨hk, hm⟩ := h.pinned i hi hz
    rw [hm]
    by_contra hmount
    obtain ⟨-, -, hnum, -⟩ := W.mounts i hi (by simpa using hmount)
    exact hnum (keyOf_num (hk.symm.trans hkey))

/-- Where a path has arrived: the slot of the inode, which is one of the tree. -/
structure Here (s₀ : State) (T : Key → Prop) (key : Key) (k : Nat) (s : State) : Prop where
  held : Held s₀ [k] s
  lt   : k < nrInode
  here : s.keyOf k = key
  tree : T key ∨ (s₀.record key).nlinks = 0 ∧ (s₀.slot k).count ≠ 0
  dev  : key.1 ≠ 0

theorem tree_through (W : WellFormed s₀ T) {key : Key} (hT : T key) : T (s₀.through key) := by
  unfold State.through
  split
  · next p hp =>
    have hlt := List.mem_range.mp (List.mem_of_find?_eq_some hp)
    have hany := List.find?_some hp
    obtain ⟨j, hj, -⟩ := (Option.any_eq_true _ _).mp hany
    exact (W.supers p j hlt hj).2.2.2.1
  · exact hT

theorem iget_spec (W : WellFormed s₀ T) (hroom : Room s₀) (h : Held s₀ [] s) {dev nr : Nat}
    (hT : T (dev, nr)) :
    wp (iget dev nr) (fun k s' => Here s₀ T (s₀.through (dev, nr)) k s') Never s := by
  have h0 : dev ≠ 0 := dev_of_getSuper (W.linked (dev, nr) hT).1
  have hdev : (s₀.through (dev, nr)).1 ≠ 0 :=
    dev_of_getSuper (W.linked _ (tree_through W hT)).1
  unfold iget
  rw [if_neg h0, wp_bind]
  refine wp_mono (getEmptyInode_spec h hroom) ?_ fun _ _ he => he
  intro e s₁ h₁
  by_cases hplain : ∀ i, i < nrInode → s₁.keyOf i = (dev, nr) → s₁.mount i = false
  · refine wp_mono (scan_plain W h₁ hT hplain) ?_ fun _ _ he => he
    rintro k s₂ ⟨h₂, hk, hkey⟩
    rw [through_self W h₁.held hplain]
    exact ⟨h₂, hk, hkey, Or.inl hT, h0⟩
  · push Not at hplain
    obtain ⟨i, hi, hkey, hmount⟩ := hplain
    replace hmount : s₁.mount i = true := by simpa using hmount
    have hi0 : (s₁.slot i).dev ≠ 0 := by
      rw [keyOf_dev hkey]
      exact h0
    obtain ⟨p, hon, hp, hthrough, himount⟩ := through_mount W h₁.held hi hmount
    rw [hkey] at hthrough
    obtain ⟨-, hused, -, hroot, -⟩ := W.supers p i hp himount
    have hlook : lookup s₁.core.inode dev nr = some i := by
      cases hl : lookup s₁.core.inode dev nr with
      | none => exact absurd hkey (lookup_eq_none hl hi)
      | some j =>
        obtain ⟨hj, hjkey⟩ := lookup_eq_some hl
        rw [h₁.held.unique i j hi hj hi0 (hjkey.trans hkey.symm)]
    unfold scan
    rw [wp_bind, wp_get, hlook]
    dsimp only
    rw [wp_bind]
    refine wp_mono (addCount_spec h₁.held hi) ?_ fun _ _ he => he
    rintro _ s₂ ⟨h₂, hkeys₂⟩
    rw [if_pos hmount, hon]
    dsimp only
    rw [wp_bind]
    refine wp_mono (iput_spec h₂ hi (Or.inl hused)) ?_ fun _ _ he => he
    rintro _ s₃ ⟨h₃, hkeys₃⟩
    have hempty : Empty s₀ e s₃ :=
      ⟨h₃, h₁.lt, h₁.free, (keyOf_dev (hkeys₃ e)).trans ((keyOf_dev (hkeys₂ e)).trans h₁.dev)⟩
    rw [h₁.held.super] at hthrough ⊢
    refine wp_mono (scan_plain W hempty hroot fun j hj hjkey => mount_root W h₃ hj hjkey) ?_
      fun _ _ he => he
    rintro k s₄ ⟨h₄, hk, hkey₄⟩
    rw [hthrough] at hdev ⊢
    exact ⟨h₄, hk, hkey₄, Or.inl hroot, hdev⟩

/-! ## Lookups -/

/-- `match` compares strings. -/
theorem match_eq {name : Name} {de : Entry} (hlen : name.length ≤ nameLen) (hnul : 0#8 ∉ name) :
    match_ name de = decide (de.inode ≠ 0 ∧ de.text = name) := by
  have hall : ∀ c ∈ name, decide (c ≠ 0#8) = true := by
    intro c hc
    exact decide_eq_true fun h0 => hnul (h0 ▸ hc)
  unfold match_ Entry.text
  by_cases hi : de.inode = 0
  · rw [if_pos (Or.inl hi)]
    simp [hi]
  rw [if_neg (by omega)]
  by_cases htake : de.name.take name.length = name
  · obtain ⟨rest, hrest⟩ : ∃ rest, de.name = name ++ rest := by
      have hsplit := List.take_append_drop name.length de.name
      rw [htake] at hsplit
      exact ⟨_, hsplit.symm⟩
    have hwhile : de.name.takeWhile (fun c => decide (c ≠ 0#8)) =
        name ++ rest.takeWhile (fun c => decide (c ≠ 0#8)) := by
      rw [hrest, List.takeWhile_append_of_pos hall]
    have hget : de.name[name.length]? = rest.head? := by
      rw [hrest, List.getElem?_append_right (Nat.le_refl _), Nat.sub_self, List.head?_eq_getElem?]
    have hfull := de.full
    rw [hrest, List.length_append] at hfull
    rw [hget, hwhile, htake]
    cases rest with
    | nil =>
      have hno : ¬ name.length < nameLen := by
        simp only [List.length_nil] at hfull
        omega
      simp [hno, hi]
    | cons c rest =>
      have hlt : name.length < nameLen := by
        simp only [List.length_cons] at hfull
        omega
      by_cases hc : c = 0#8
      · simp [hlt, hc, hi]
      · simp [hlt, hc]
  · have hne : de.name.takeWhile (fun c => decide (c ≠ 0#8)) ≠ name := by
      intro hw
      refine htake ?_
      rw [← hw]
      exact (List.prefix_iff_eq_take.mp (List.takeWhile_prefix _)).symm
    have hright : decide (de.inode ≠ 0 ∧ de.name.takeWhile (fun c => decide (c ≠ 0#8)) = name) =
        false := decide_eq_false fun h => hne h.2
    rw [hright]
    split
    · rfl
    · exact decide_eq_false htake

/-- The inode number that entry `i` of the blocks of `zone` gives a name. -/
def State.namedIn (s : State) (dev : Nat) (zone : Nat → Nat) (name : Name) (i : Nat) : Option Nat :=
  ((s.bmap dev zone (i / dirEntriesPerBlock)).map fun b =>
    s.entry dev b (i % dirEntriesPerBlock)).bind fun de =>
      if de.inode ≠ 0 ∧ de.text = name then some de.inode else none

theorem namedIn_of_match {dev i b : Nat} {zone : Nat → Nat} {name : Name}
    (hlen : name.length ≤ nameLen) (hnul : 0#8 ∉ name)
    (hb : s.bmap dev zone (i / dirEntriesPerBlock) = some b) :
    s.namedIn dev zone name i =
      if match_ name (s.entry dev b (i % dirEntriesPerBlock)) = true then
        some (s.entry dev b (i % dirEntriesPerBlock)).inode
      else none := by
  unfold State.namedIn
  rw [hb, Option.map_some, Option.bind_some, match_eq hlen hnul]
  simp only [decide_eq_true_eq]

/-- The loop of `find_entry` gives the first entry of the name, if the blocks of the
first `m` entries can be read, and these are all or the name is among them. -/
theorem findLoop_eq {dev entries m : Nat} {zone : Nat → Nat} {name : Name}
    (hlen : name.length ≤ nameLen) (hnul : 0#8 ∉ name) (hm : m ≤ entries)
    (hmap : ∀ i, i < m → ∃ b, s.bmap dev zone (i / dirEntriesPerBlock) = some b ∧ b ≠ 0 ∧
      s.readable dev b = true) {n i block : Nat} (hi : i ≤ m) (hn : entries - i < n)
    (hblock : i < m → i % dirEntriesPerBlock ≠ 0 ∨ i = 0 →
      s.bmap dev zone (i / dirEntriesPerBlock) = some block)
    (hend : m = entries ∨ (List.range' i (m - i)).findSome? (s.namedIn dev zone name) ≠ none) :
    s.findLoop dev zone name entries n i block =
      pure ((List.range' i (m - i)).findSome? (s.namedIn dev zone name)) := by
  induction n generalizing i block with
  | zero => omega
  | succ n ih =>
    unfold State.findLoop
    rcases Nat.lt_or_ge i m with hlt | hge
    · have hrange : List.range' i (m - i) = i :: List.range' (i + 1) (m - (i + 1)) := by
        rw [show m - i = m - (i + 1) + 1 by omega, List.range'_succ]
      rw [if_neg (by omega)]
      rw [hrange] at hend ⊢
      obtain ⟨b, hb, hb0, hread⟩ := hmap i hlt
      -- one round, with the block of the entry
      have hround : ∀ {x : PM (Option Nat)}, (s.namedIn dev zone name i = none →
          x = pure ((List.range' (i + 1) (m - (i + 1))).findSome? (s.namedIn dev zone name))) →
          (if match_ name (s.entry dev b (i % dirEntriesPerBlock)) = true then
            pure (some (s.entry dev b (i % dirEntriesPerBlock)).inode) else x) =
          pure ((i :: List.range' (i + 1) (m - (i + 1))).findSome? (s.namedIn dev zone name)) := by
        intro x hx
        have hnamed := namedIn_of_match hlen hnul hb
        rw [List.findSome?_cons]
        split
        · next hmatch =>
          rw [if_pos hmatch] at hnamed
          rw [hnamed]
        · next hmatch =>
          rw [if_neg hmatch] at hnamed
          rw [hx hnamed, hnamed]
      have hnext : s.namedIn dev zone name i = none →
          s.findLoop dev zone name entries n (i + 1) b =
            pure ((List.range' (i + 1) (m - (i + 1))).findSome? (s.namedIn dev zone name)) := by
        intro hnone
        refine ih (by omega) (by omega) ?_ ?_
        · intro _ hmod
          have hsame : (i + 1) / dirEntriesPerBlock = i / dirEntriesPerBlock := by
            unfold dirEntriesPerBlock at hmod ⊢
            omega
          rw [hsame]
          exact hb
        · rw [List.findSome?_cons, hnone] at hend
          exact hend
      by_cases hfirst : i % dirEntriesPerBlock = 0 ∧ i ≠ 0
      · rw [if_pos hfirst, hb]
        dsimp only
        rw [if_neg (by rw [hread]; simp [hb0])]
        have h := hround hnext
        rw [hfirst.1] at h
        exact h
      · rw [if_neg hfirst]
        have hsame : block = b := by
          have := hblock hlt (by omega)
          rw [hb] at this
          exact (Option.some.inj this).symm
        rw [hsame]
        exact hround hnext
    · obtain rfl : i = m := by omega
      rw [Nat.sub_self] at hend ⊢
      rcases hend with hall | hfound
      · rw [if_pos (by omega)]
        rfl
      · exact absurd rfl hfound

theorem Held.bmap (h : Held s₀ L s) (dev : Nat) (zone : Nat → Nat) (b : Nat) :
    s.bmap dev zone b = s₀.bmap dev zone b := by
  unfold State.bmap State.indexed
  rw [h.index, h.read]

theorem Held.named (h : Held s₀ L s) (key : Key) (name : Name) :
    s.namedIn key.1 (s₀.record key).zone name = s₀.named key name := by
  funext i
  unfold State.namedIn State.named State.entryAt
  rw [h.bmap, h.entry]

/-- `..` is entry 1. -/
theorem find_dotdot (W : WellFormed s₀ T) {key : Key} (hT : T key)
    (hdir : isDir (s₀.record key).mode = true) {m : Nat} (hm : 2 ≤ m) :
    ∃ nr, (List.range' 0 m).findSome? (s₀.named key dotdot) = some nr := by
  obtain ⟨de, hde, htext, hlive⟩ := W.parent key hT hdir
  refine Option.ne_none_iff_exists'.mp fun hnone => ?_
  have h1 := List.findSome?_eq_none_iff.mp hnone 1 (by simp; omega)
  unfold State.named at h1
  rw [hde, Option.bind_some, if_pos ⟨hlive, htext⟩] at h1
  cases h1

theorem find_two (W : WellFormed s₀ T) {key : Key} (hT : T key)
    (hdir : isDir (s₀.record key).mode = true) {m : Nat} (hm : 2 ≤ m) :
    (List.range' 0 m).findSome? (s₀.named key dotdot) =
      (List.range' 0 2).findSome? (s₀.named key dotdot) := by
  obtain ⟨nr, hnr⟩ := find_dotdot W hT hdir (Nat.le_refl 2)
  have hsplit : List.range' 0 m = List.range' 0 2 ++ List.range' 2 (m - 2) := by
    rw [List.range'_append_1]
    congr 1
    omega
  rw [hsplit, List.findSome?_append, hnr]
  rfl

/-- The entries that `find_entry` looks at: those of the directory, or as many as
another one has, if it looks for `..`. -/
theorem findIn_spec (W : WellFormed s₀ T) {key : Key} (h : Here s₀ T key k s) (hT : T key)
    (hdir : isDir (s₀.record key).mode = true) {name : Name} {entries : Nat}
    (hlen : name.length ≤ nameLen) (hnul : 0#8 ∉ name)
    (hentries : entries = s₀.entries key ∨ 2 ≤ entries ∧ name = dotdot) :
    wp (findIn k name entries) (fun r s' => r = (k, s₀.find key name) ∧ s' = s) Never s := by
  have h0 : (s.slot k).dev ≠ 0 := by
    rw [keyOf_dev h.here]
    exact h.dev
  have hdev : (s.slot k).dev = key.1 := keyOf_dev h.here
  have hrec : (s.slot k).d = s₀.record key := by
    rw [h.held.slot_record h.lt h0, h.here]
  obtain ⟨htwo, hwhole⟩ := W.whole key hT hdir
  have hmap : ∀ i, i < s₀.entries key → ∃ b,
      s.bmap key.1 (s₀.record key).zone (i / dirEntriesPerBlock) = some b ∧ b ≠ 0 ∧
        s.readable key.1 b = true := by
    intro i hi
    rw [h.held.bmap, h.held.read]
    exact hwhole i hi
  have hzero : s.bmap key.1 (s₀.record key).zone (0 / dirEntriesPerBlock) =
      some ((s₀.record key).zone 0) := rfl
  obtain ⟨b, hb, hb0, hread⟩ := hmap 0 (by omega)
  rw [hzero] at hb
  cases hb
  unfold findIn
  rw [wp_bind, wp_get]
  dsimp only
  rw [hdev, hrec, if_neg (by rw [hread]; simp [hb0]), wp_bind]
  have hloop : ∀ m, m ≤ entries → m ≤ s₀.entries key → (m = entries ∨
      (List.range' 0 (m - 0)).findSome? (s.namedIn key.1 (s₀.record key).zone name) ≠ none) →
      s.findLoop key.1 (s₀.record key).zone name entries (entries + 1) 0 ((s₀.record key).zone 0) =
        pure ((List.range' 0 (m - 0)).findSome? (s₀.named key name)) := by
    intro m hm hm' hend
    rw [← h.held.named]
    exact findLoop_eq hlen hnul hm (fun i hi => hmap i (by omega)) (Nat.zero_le m) (by omega)
      (fun _ _ => hzero) hend
  have hfind : s₀.find key name = (List.range' 0 (s₀.entries key)).findSome? (s₀.named key name) := by
    unfold State.find
    rw [List.range_eq_range']
  rcases hentries with heq | ⟨hge, hname⟩
  · rw [hloop entries (Nat.le_refl _) (by omega) (Or.inl rfl), wp_pure, wp_pure, hfind, heq]
    exact ⟨rfl, rfl⟩
  · subst hname
    obtain ⟨nr, hnr⟩ := find_dotdot W hT hdir (Nat.le_refl 2)
    have hsome : (List.range' 0 (2 - 0)).findSome? (s.namedIn key.1 (s₀.record key).zone dotdot) ≠
        none := by
      rw [h.held.named, hnr]
      exact Option.some_ne_none nr
    rw [hloop 2 hge htwo (Or.inr hsome), wp_pure, wp_pure, hfind, find_two W hT hdir htwo]
    exact ⟨rfl, rfl⟩

theorem find_tree (W : WellFormed s₀ T) {key : Key} (hT : T key)
    (hdir : isDir (s₀.record key).mode = true) {name : Name} {nr : Nat}
    (h : s₀.find key name = some nr) : T (key.1, nr) := by
  obtain ⟨i, hi, hnamed⟩ := List.exists_of_findSome?_eq_some h
  unfold State.named at hnamed
  obtain ⟨de, hde, hif⟩ := Option.bind_eq_some_iff.mp hnamed
  split at hif
  · next hlive =>
    cases hif
    exact W.closed key i de hT hdir (List.mem_range.mp hi) hde hlive.1
  · cases hif

/-- `.` is entry 0, and the directory itself. -/
theorem find_dot (W : WellFormed s₀ T) {key : Key} (hT : T key)
    (hdir : isDir (s₀.record key).mode = true) : s₀.find key dot = some key.2 := by
  obtain ⟨de, hde, htext, hself⟩ := W.self key hT hdir
  have htwo := (W.whole key hT hdir).1
  have hlive : de.inode ≠ 0 := by
    rw [hself]
    have := (W.linked key hT).2.1
    omega
  unfold State.find
  rw [List.range_eq_range', show s₀.entries key = s₀.entries key - 1 + 1 by omega, List.range'_succ,
    List.findSome?_cons]
  unfold State.named
  rw [hde, Option.bind_some, if_pos ⟨hlive, htext⟩, hself]

/-- A directory that may be searched is in the tree. -/
theorem tree_of_canSearch {key : Key} (h : Here s₀ T key k s) (hsearch : s₀.canSearch key = true) :
    T key ∧ isDir (s₀.record key).mode = true := by
  unfold State.canSearch State.searchable at hsearch
  rw [Bool.and_eq_true] at hsearch
  refine ⟨?_, hsearch.1⟩
  rcases h.tree with hT | ⟨hlinks, -⟩
  · exact hT
  · have hperm := hsearch.2
    unfold State.permission at hperm
    rw [if_pos ⟨h.dev, hlinks⟩] at hperm
    cases hperm

/-- The task's root is where it was. -/
theorem root_iff (W : WellFormed s₀ T) {key : Key} (h : Here s₀ T key k s) :
    k = s.root ↔ key = s₀.keyOf s₀.root := by
  obtain ⟨hlt, hcount, -, -⟩ := W.root
  have hroot : s.keyOf s₀.root = s₀.keyOf s₀.root := (h.held.pinned _ hlt hcount).1
  rw [h.held.task.1]
  constructor
  · rintro rfl
    exact h.here.symm.trans hroot
  · intro hkey
    have h0 : (s.slot k).dev ≠ 0 := by
      rw [keyOf_dev h.here]
      exact h.dev
    exact h.held.unique k _ h.lt hlt h0 (hroot.trans (hkey.symm.trans h.here.symm))

/-- The reference that a walk gives up: the inode has a link, or was in use. -/
theorem Here.stays (W : WellFormed s₀ T) {key : Key} (h : Here s₀ T key k s) : Stays s₀ s k := by
  unfold Stays
  rw [h.here]
  rcases h.tree with hT | ⟨-, hcount⟩
  · exact Or.inr (Or.inr (W.linked key hT).2.2)
  · exact Or.inl hcount

/-- What `find_entry` gives: the directory it left, and the number of the entry, which
lead to the next inode. -/
def Found (s₀ : State) (T : Key → Prop) (next : Option Key) (r : Nat × Option Nat) (s : State) :
    Prop :=
  ∃ key, Here s₀ T key r.1 s ∧ next = r.2.map (fun nr => s₀.through (key.1, nr)) ∧
    ∀ nr, r.2 = some nr → T (key.1, nr)

theorem findEntry_spec (W : WellFormed s₀ T) {key : Key} (h : Here s₀ T key k s)
    (hsearch : s₀.canSearch key = true) {name : Name} (hnul : 0#8 ∉ name) :
    wp (findEntry k name) (Found s₀ T (s₀.lookupName key name)) Never s := by
  obtain ⟨hT, hdir⟩ := tree_of_canSearch h hsearch
  have h0 : (s.slot k).dev ≠ 0 := by
    rw [keyOf_dev h.here]
    exact h.dev
  have hentries : (s.slot k).d.size / 16 = s₀.entries key := by
    unfold State.entries
    rw [h.held.slot_record h.lt h0, h.here]
  have hlen : (name.take nameLen).length ≤ nameLen := List.length_take_le ..
  have hnul' : 0#8 ∉ name.take nameLen := fun hm => hnul (List.mem_of_mem_take hm)
  have hdot : dot.length ≤ nameLen ∧ 0#8 ∉ dot := by decide
  have hdots : dotdot.length ≤ nameLen ∧ 0#8 ∉ dotdot := by decide
  -- the entry is looked for in the directory itself
  have hplain : ∀ {name' : Name}, name'.length ≤ nameLen → 0#8 ∉ name' →
      wp (findIn k name' (s₀.entries key)) (Found s₀ T (s₀.arrive key name')) Never s := by
    intro name' hlen' hnul''
    refine wp_mono (findIn_spec W h hT hdir hlen' hnul'' (Or.inl rfl)) ?_ fun _ _ he => he
    rintro r s' ⟨rfl, rfl⟩
    exact ⟨key, h, rfl, fun nr hnr => find_tree W hT hdir hnr⟩
  unfold findEntry State.lookupName
  dsimp only
  rw [wp_bind, wp_get, hentries, wp_ite]
  refine ⟨fun hempty => ?_, fun hempty => ?_⟩
  · rw [if_pos hempty, wp_pure]
    exact ⟨key, h, rfl, fun nr hnr => by cases hnr⟩
  rw [if_neg hempty, wp_bind]
  unfold swap
  rw [wp_bind, wp_get]
  by_cases hname : name.take nameLen = dotdot
  · rw [if_neg (not_not_intro hname), if_pos hname]
    by_cases hroot : k = s.root
    · -- `..` at the root of the task is `.`
      rw [if_pos hroot, if_pos ((root_iff W h).mp hroot), wp_pure]
      refine wp_mono (hplain hdot.1 hdot.2) ?_ fun _ _ he => he
      have hself : s₀.through key = key := by
        refine through_self W h.held fun i hi hkey => ?_
        obtain rfl : k = i := h.held.unique k i h.lt hi h0 (hkey.trans h.here.symm)
        obtain ⟨hlt, hcount, -, hmount⟩ := W.root
        rw [hroot, h.held.task.1, (h.held.pinned _ hlt hcount).2]
        exact hmount
      have harrive : s₀.arrive key dot = some key := by
        unfold State.arrive
        rw [find_dot W hT hdir, Option.map_some]
        exact congrArg some hself
      rw [harrive]
      exact fun _ _ hfound => hfound
    · rw [if_neg hroot, if_neg fun hk => hroot ((root_iff W h).mpr hk)]
      by_cases hnum : key.2 = rootIno
      · rw [if_neg (by rw [keyOf_num h.here]; exact not_not_intro hnum), if_pos hnum]
        obtain ⟨p, hp⟩ := Option.ne_none_iff_exists'.mp (W.linked key hT).1
        have hpl : p < nrSuper := by
          unfold State.getSuper at hp
          rw [if_neg h.dev] at hp
          exact List.mem_range.mp (List.mem_of_find?_eq_some hp)
        have hsuper : s.getSuper (s.slot k).dev = some p := by
          rw [h.held.getSuper, keyOf_dev h.here, hp]
        have hcovered : s₀.covered key.1 = (s₀.super p).imount.map s₀.keyOf := by
          unfold State.covered
          rw [hp]
          rfl
        rw [hsuper, hcovered]
        dsimp only
        rw [h.held.super]
        cases himount : (s₀.super p).imount with
        | none =>
          dsimp only
          rw [wp_pure, hname]
          exact hplain hdots.1 hdots.2
        | some j =>
          -- the mounted root is exchanged for what it covers
          dsimp only
          obtain ⟨hj, hjcount, -, -, hjT, hjdir⟩ := W.supers p j hpl himount
          rw [wp_bind]
          refine wp_mono (iput_spec h.held h.lt (h.stays W)) ?_ fun _ _ he => he
          rintro _ s₁ ⟨h₁, -⟩
          rw [wp_bind]
          refine wp_mono (addCount_spec h₁ hj) ?_ fun _ _ he => he
          rintro _ s₂ ⟨h₂, -⟩
          rw [wp_pure, hname]
          have hhere : Here s₀ T (s₀.keyOf j) j s₂ :=
            ⟨h₂, hj, (h₂.pinned j hj hjcount).1, Or.inl hjT, dev_of_getSuper (W.linked _ hjT).1⟩
          refine wp_mono (findIn_spec W hhere hjT hjdir hdots.1 hdots.2
            (Or.inr ⟨(W.whole key hT hdir).1, rfl⟩)) ?_ fun _ _ he => he
          rintro r s' ⟨rfl, rfl⟩
          exact ⟨s₀.keyOf j, hhere, rfl, fun nr hnr => find_tree W hjT hjdir hnr⟩
      · rw [if_pos (by rw [keyOf_num h.here]; exact hnum), if_neg hnum, wp_pure, hname]
        exact hplain hdots.1 hdots.2
  · rw [if_pos hname, if_neg hname, wp_pure]
    exact hplain hlen hnul'

/-- A walk that leads to `o` ends without a reference, or with one to that inode. -/
def Arrives (s₀ : State) (T : Key → Prop) (o : Option Key) (r : Option Nat) (s : State) : Prop :=
  (r = none ∧ o = none ∧ Held s₀ [] s) ∨ ∃ j key, r = some j ∧ o = some key ∧ Here s₀ T key j s

/-- One lookup, and the inode it gives. -/
theorem next_spec (W : WellFormed s₀ T) (hroom : Room s₀) {key : Key} (h : Here s₀ T key k s)
    (hsearch : s₀.canSearch key = true) {name : Name} (hnul : 0#8 ∉ name) :
    wp (next k name) (Arrives s₀ T (s₀.lookupName key name)) Never s := by
  unfold next
  rw [wp_bind]
  refine wp_mono (findEntry_spec W h hsearch hnul) ?_ fun _ _ he => he
  rintro ⟨d, nr⟩ s₁ ⟨key₁, h₁, hnext, htree⟩
  cases nr with
  | none =>
    dsimp only
    rw [wp_bind]
    refine wp_mono (iput_spec h₁.held h₁.lt (h₁.stays W)) ?_ fun _ _ he => he
    rintro _ s₂ ⟨h₂, -⟩
    rw [wp_pure]
    exact Or.inl ⟨rfl, hnext, h₂⟩
  | some nr =>
    dsimp only at hnext ⊢
    rw [wp_bind, wp_get, wp_bind]
    refine wp_mono (iput_spec h₁.held h₁.lt (h₁.stays W)) ?_ fun _ _ he => he
    rintro _ s₂ ⟨h₂, -⟩
    rw [wp_bind, show (s₁.slot d).dev = key₁.1 from keyOf_dev h₁.here]
    refine wp_mono (iget_spec W hroom h₂ (htree nr rfl)) ?_ fun _ _ he => he
    intro j s₃ h₃
    rw [wp_pure]
    exact Or.inr ⟨j, _, rfl, hnext, h₃⟩

/-! ## Paths -/

theorem searchable_eq {key : Key} (h : Here s₀ T key k s) :
    s.searchable (s.slot k) = s₀.canSearch key := by
  have hdev : (s.slot k).dev = key.1 := keyOf_dev h.here
  have hrec : (s.slot k).d = s₀.record key := by
    rw [h.held.slot_record h.lt (by rw [hdev]; exact h.dev), h.here]
  unfold State.canSearch State.searchable State.permission
  rw [hrec, hdev, h.held.task.2.2.1, h.held.task.2.2.2]

/-- Nothing is found from a directory that may not be searched. -/
theorem resolveDir_none {key : Key} (h : s₀.canSearch key = false) (names : List Name) :
    s₀.resolveDir key names = none := by
  unfold State.resolveDir
  cases names with
  | nil =>
    rw [List.foldlM_nil]
    show Option.filter _ (some key) = none
    rw [Option.filter_some, h]
    rfl
  | cons name names =>
    rw [List.foldlM_cons]
    unfold State.step
    rw [h]
    rfl

theorem resolveDir_cons {key : Key} (h : s₀.canSearch key = true) (name : Name)
    (names : List Name) : s₀.resolveDir key (name :: names) =
      (s₀.lookupName key name).bind fun key' => s₀.resolveDir key' names := by
  unfold State.resolveDir
  rw [List.foldlM_cons]
  unfold State.step
  rw [if_pos h]
  cases s₀.lookupName key name with
  | none => rfl
  | some key' => rfl

/-- The walk ends, as a directory on the way may not be searched. -/
theorem give_up (W : WellFormed s₀ T) {key : Key} (h : Here s₀ T key k s)
    (hsearch : s₀.canSearch key = false) (names : List Name) :
    wp (do iput k
           return none) (Arrives s₀ T (s₀.resolveDir key names)) Never s := by
  rw [wp_bind]
  refine wp_mono (iput_spec h.held h.lt (h.stays W)) ?_ fun _ _ he => he
  rintro _ s₁ ⟨h₁, -⟩
  rw [wp_pure]
  exact Or.inl ⟨rfl, resolveDir_none hsearch names, h₁⟩

theorem modifyHead_nil_append (names : List Name) :
    names.modifyHead (([] : Name) ++ ·) = names := by
  cases names with
  | nil => rfl
  | cons name names => rfl

/-- The loop of `get_dir` looks up all names but the last. -/
theorem getDirLoop_spec (W : WellFormed s₀ T) (hroom : Room s₀) {path : Name} {key : Key}
    (h : Here s₀ T key k s) (hsearch : s₀.canSearch key = true) (hnul : 0#8 ∉ path)
    {thisname : Name} (hthis : 0#8 ∉ thisname) :
    wp (getDirLoop path k thisname)
      (Arrives s₀ T (s₀.resolveDir key
        ((path.splitOn slash).modifyHead (thisname ++ ·)).dropLast)) Never s := by
  induction path generalizing k s key thisname with
  | nil =>
    unfold getDirLoop
    rw [wp_pure]
    refine Or.inr ⟨k, key, rfl, ?_, h⟩
    show Option.filter _ (some key) = some key
    rw [Option.filter_some, hsearch]
    rfl
  | cons c path ih =>
    obtain ⟨hc, hpath⟩ : 0#8 ≠ c ∧ 0#8 ∉ path := by
      rw [List.mem_cons, not_or] at hnul
      exact hnul
    unfold getDirLoop
    rw [List.splitOn_cons_eq_if_modifyHead]
    by_cases hslash : c = slash
    · have hnames : (([] :: path.splitOn slash).modifyHead (thisname ++ ·)).dropLast =
          thisname :: (path.splitOn slash).dropLast := by
        rw [List.modifyHead_cons, List.append_nil,
          List.dropLast_cons_of_ne_nil (List.splitOn_ne_nil slash path)]
      rw [if_pos hslash, if_pos (by rw [hslash]; exact beq_self_eq_true _), hnames,
        resolveDir_cons hsearch, wp_bind]
      refine wp_mono (next_spec W hroom h hsearch hthis) ?_ fun _ _ he => he
      rintro r s₁ (⟨rfl, hnone, h₁⟩ | ⟨j, key₁, rfl, hsome, h₁⟩)
      · dsimp only
        rw [wp_pure, hnone]
        exact Or.inl ⟨rfl, rfl, h₁⟩
      · dsimp only
        rw [hsome, Option.bind_some, wp_bind, wp_get, searchable_eq h₁]
        by_cases hs : s₀.canSearch key₁ = true
        · rw [if_pos hs]
          have hrest := ih h₁ hs hpath (List.not_mem_nil (a := 0#8))
          rw [modifyHead_nil_append] at hrest
          exact hrest
        · rw [if_neg hs]
          exact give_up W h₁ (by simpa using hs) _
    · rw [if_neg hslash, if_neg (by simpa using hslash)]
      have hthis' : 0#8 ∉ thisname ++ [c] := by
        rw [List.mem_append, List.mem_singleton]
        rintro (hm | hm)
        · exact hthis hm
        · exact hc hm
      have hnames : ((path.splitOn slash).modifyHead (c :: ·)).modifyHead (thisname ++ ·) =
          (path.splitOn slash).modifyHead ((thisname ++ [c]) ++ ·) := by
        cases path.splitOn slash with
        | nil => rfl
        | cons a l =>
          rw [List.modifyHead_cons, List.modifyHead_cons, List.modifyHead_cons, List.append_assoc]
          rfl
      rw [hnames]
      exact ih h hsearch hpath hthis'

/-- The walk begins. -/
theorem held_self (W : WellFormed s₀ T) : Held s₀ [] s₀ := by
  refine ⟨W.toTable, rfl, rfl, rfl, rfl, ⟨rfl, rfl, rfl, rfl⟩, rfl, fun _ _ => rfl,
    fun _ _ _ => ⟨rfl, rfl⟩, ?_, fun _ _ _ => rfl⟩
  intro i hi hz
  by_contra hmount
  exact (W.mounts i hi (by simpa using hmount)).1 hz

theorem getDir_spec (W : WellFormed s₀ T) (hroom : Room s₀) {path : Name} (hpath : path ≠ [])
    (hnul : 0#8 ∉ path) :
    wp (getDir path) (Arrives s₀ T (s₀.resolveParent path)) Never s₀ := by
  obtain ⟨c, rest, rfl⟩ := List.exists_cons_of_ne_nil hpath
  have hslash : (c :: rest).head? = some slash ↔ c = slash := by
    rw [List.head?_cons, Option.some.injEq]
  unfold getDir State.resolveParent State.start components
  rw [wp_bind, wp_get, if_neg W.root.2.1, if_neg W.pwd.2.1]
  dsimp only
  simp only [hslash]
  obtain ⟨hlt, hcount, h0⟩ : (if c = slash then s₀.root else s₀.pwd) < nrInode ∧
      (s₀.slot (if c = slash then s₀.root else s₀.pwd)).count ≠ 0 ∧
      (s₀.slot (if c = slash then s₀.root else s₀.pwd)).dev ≠ 0 := by
    split
    · exact ⟨W.root.1, W.root.2.1, W.root.2.2.1⟩
    · exact W.pwd
  have htree := W.inTree (if c = slash then s₀.root else s₀.pwd) (by split <;> simp)
  generalize (if c = slash then s₀.root else s₀.pwd) = k at hlt hcount h0 htree ⊢
  rw [wp_bind]
  refine wp_mono (addCount_spec (held_self W) hlt) ?_ fun _ _ he => he
  rintro _ s₁ ⟨h₁, hkeys₁⟩
  have hhere : Here s₀ T (s₀.keyOf k) k s₁ := by
    refine ⟨h₁, hlt, hkeys₁ k, ?_, h0⟩
    rcases htree with hT | hlinks
    · exact Or.inl hT
    · rw [W.record_slot hlt h0]
      exact Or.inr ⟨hlinks, hcount⟩
  rw [wp_bind, wp_get, searchable_eq hhere]
  by_cases hs : s₀.canSearch (s₀.keyOf k) = true
  · rw [if_pos hs]
    have hrest : 0#8 ∉ (if c = slash then rest else c :: rest) := by
      split
      · exact fun hm => hnul (List.mem_cons_of_mem _ hm)
      · exact hnul
    have hloop := getDirLoop_spec W hroom hhere hs hrest (List.not_mem_nil (a := 0#8))
    rw [modifyHead_nil_append] at hloop
    exact hloop
  · rw [if_neg hs]
    exact give_up W hhere (by simpa using hs) _

/-- The loop of `dir_namei` finds the last of the names `get_dir` has read. -/
theorem baseName_splitOn (path : Name) :
    (slash ∈ path → (path.splitOn slash).tail ≠ [] ∧
      ∀ name, baseName path name = (path.splitOn slash).getLastD []) ∧
    (slash ∉ path → path.splitOn slash = [path] ∧ ∀ name, baseName path name = name) := by
  induction path with
  | nil => exact ⟨fun h => absurd h List.not_mem_nil, fun _ => ⟨rfl, fun _ => rfl⟩⟩
  | cons c path ih =>
    obtain ⟨a, l, hl⟩ := List.exists_cons_of_ne_nil (List.splitOn_ne_nil slash path)
    by_cases hc : c = slash
    · subst hc
      have hsplit : (slash :: path).splitOn slash = [] :: path.splitOn slash := by
        rw [List.splitOn_cons_eq_if_modifyHead, if_pos (beq_self_eq_true _)]
      refine ⟨fun _ => ?_, fun hno => absurd (List.mem_cons_self ..) hno⟩
      rw [hsplit]
      refine ⟨by rw [List.tail_cons, hl]; exact List.cons_ne_nil a l, fun name => ?_⟩
      have hbase : baseName (slash :: path) name = baseName path path := if_pos rfl
      have hlast : ([] :: path.splitOn slash).getLastD [] = (path.splitOn slash).getLastD [] := by
        rw [hl]
        rfl
      rw [hbase, hlast]
      by_cases hmem : slash ∈ path
      · exact (ih.1 hmem).2 path
      · rw [(ih.2 hmem).2 path, (ih.2 hmem).1]
        rfl
    · have hsplit : (c :: path).splitOn slash = (path.splitOn slash).modifyHead (c :: ·) := by
        rw [List.splitOn_cons_eq_if_modifyHead, if_neg (by simpa using hc)]
      have hbase : ∀ name, baseName (c :: path) name = baseName path name := fun name => if_neg hc
      have hmem : slash ∈ c :: path ↔ slash ∈ path := by
        rw [List.mem_cons]
        exact ⟨fun h => h.resolve_left fun he => hc he.symm, Or.inr⟩
      rw [hmem, hsplit]
      refine ⟨fun h => ?_, fun h => ?_⟩
      · obtain ⟨htail, hname⟩ := ih.1 h
        rw [hl] at htail hname ⊢
        obtain ⟨b, l', rfl⟩ := List.exists_cons_of_ne_nil htail
        exact ⟨htail, fun name => (hbase name).trans (hname name)⟩
      · obtain ⟨hone, hname⟩ := ih.2 h
        rw [hone]
        exact ⟨rfl, fun name => (hbase name).trans (hname name)⟩

theorem baseName_self (path : Name) : baseName path path = (path.splitOn slash).getLastD [] := by
  by_cases h : slash ∈ path
  · exact ((baseName_splitOn path).1 h).2 path
  · rw [((baseName_splitOn path).2 h).2 path, ((baseName_splitOn path).2 h).1]
    rfl

theorem baseName_eq (path : Name) : baseName path path = lastName path := by
  unfold lastName components
  cases path with
  | nil => rfl
  | cons c path =>
    rw [List.head?_cons, List.tail_cons]
    by_cases hc : c = slash
    · subst hc
      rw [if_pos rfl]
      have hbase : baseName (slash :: path) (slash :: path) = baseName path path := if_pos rfl
      rw [hbase]
      exact baseName_self path
    · rw [if_neg fun h => hc (Option.some.inj h)]
      exact baseName_self (c :: path)

theorem lastName_nul {path : Name} (hnul : 0#8 ∉ path) : 0#8 ∉ lastName path := by
  rw [← baseName_eq]
  have hsub : ∀ (path name : Name), 0#8 ∉ path → 0#8 ∉ name → 0#8 ∉ baseName path name := by
    intro path
    induction path with
    | nil => exact fun _ _ h => h
    | cons c path ih =>
      intro name hp hn
      have hp' : 0#8 ∉ path := fun hm => hp (List.mem_cons_of_mem _ hm)
      unfold baseName
      split
      · exact ih path hp' hp'
      · exact ih name hp' hn
  exact hsub path path hnul hnul

theorem dirNamei_spec (W : WellFormed s₀ T) (hroom : Room s₀) {path : Name} (hpath : path ≠ [])
    (hnul : 0#8 ∉ path) :
    wp (dirNamei path) (fun r s' => Arrives s₀ T (s₀.resolveParent path) (r.map (·.1)) s' ∧
      ∀ x, r = some x → x.2 = ((lastName path).length, lastName path)) Never s₀ := by
  unfold dirNamei
  rw [wp_bind]
  refine wp_mono (getDir_spec W hroom hpath hnul) ?_ fun _ _ he => he
  rintro r s₁ h₁
  cases r with
  | none => exact ⟨h₁, fun x hx => by cases hx⟩
  | some k =>
    refine ⟨h₁, fun x hx => ?_⟩
    cases hx
    rw [baseName_eq]

theorem canSearch_of_resolveParent {path : Name} {key : Key}
    (h : s₀.resolveParent path = some key) : s₀.canSearch key = true :=
  (Option.filter_eq_some_iff.mp h).2

theorem namei_spec (W : WellFormed s₀ T) (hroom : Room s₀) {path : Name} (hpath : path ≠ [])
    (hnul : 0#8 ∉ path) :
    wp (namei path) (fun r s' => r.map s'.keyOf = s₀.resolve path) Never s₀ := by
  unfold namei State.resolve
  rw [wp_bind]
  refine wp_mono (dirNamei_spec W hroom hpath hnul) ?_ fun _ _ he => he
  rintro r s₁ ⟨⟨hr, hnone, -⟩ | ⟨j, key, hr, hsome, h₁⟩, hname⟩
  · obtain rfl : r = none := Option.map_eq_none_iff.mp hr
    rw [hnone]
    rfl
  · obtain ⟨⟨dir, namelen, name⟩, rfl, rfl⟩ := Option.map_eq_some_iff.mp hr
    obtain ⟨rfl, rfl⟩ := Prod.mk.inj (hname _ rfl)
    rw [hsome, Option.bind_some]
    dsimp only
    by_cases hempty : lastName path = []
    · rw [if_pos hempty, if_pos (by rw [hempty]; rfl), wp_pure]
      exact congrArg some h₁.here
    · rw [if_neg hempty, if_neg fun hlen => hempty (List.length_eq_zero_iff.mp hlen), wp_bind]
      refine wp_mono (next_spec W hroom h₁ (canSearch_of_resolveParent hsome) (lastName_nul hnul)) ?_
        fun _ _ he => he
      rintro r s₂ (⟨rfl, hno, -⟩ | ⟨i, key₂, rfl, hyes, h₂⟩)
      · dsimp only
        rw [wp_pure, hno]
        rfl
      · dsimp only
        rw [wp_bind, wp_modify, wp_pure, hyes, ← h₂.here]
        show some _ = some _
        unfold State.keyOf
        rw [slot_setSlot]

/-- An entry with its name filled up. -/
def mkEntry (inode : Nat) (text : Name) : Entry where
  inode := inode
  name := (text ++ List.replicate nameLen 0#8).take nameLen
  full := by simp [nameLen]

/-- A directory of three entries. -/
def dirRecord (num : Nat) : Record :=
  ⟨0o040755, 0, 48, 0, 0, 2, fun z => if z = 0 then 100 + num else 0⟩

/-- Two devices: every directory has an entry `a`, inode 2. The first `n` inodes of device 1
are in core, the first of them is the root, and device 2 is mounted on the second. -/
def tree (n : Nat) : State where
  core := {
    inode := fun i => if i < n then ⟨1, i + 1, 1, false, dirRecord (i + 1)⟩ else Slot.zero
    last := 0
    bit := fun _ _ => true
    ninodes := fun _ => 60
    start := fun _ => 0
    disk := fun _ block i => dirRecord (block * 32 + i + 1)
    kept := fun _ _ => none }
  mount i := i == 1
  super p := if p = 0 then ⟨1, some 0⟩ else if p = 1 then ⟨2, some 1⟩ else ⟨0, none⟩
  entry _ block i :=
    if i = 0 then mkEntry (block - 100) dot
    else if i = 1 then mkEntry 1 dotdot
    else if i = 2 then mkEntry 2 [97#8]
    else mkEntry 0 []
  index _ _ _ := 0
  readable _ _ := true
  root := 0
  pwd := 0
  euid := 0
  egid := 0

end Linux011.Fs.Path
