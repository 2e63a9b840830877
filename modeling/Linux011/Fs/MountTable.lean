import Linux011.Lib.RefCount
import Linux011.Fs.Mount
import Linux011.Fs.Resolve

/-!
# The mount table

The counts of the inode table are those of the references and of the super blocks. From
that, an inode that is covered is in use, nothing clears its flag, and an inode that is
not in use is clean, so that no write comes after its device is gone.

* `Refs` — the inode table within a call, relative to where the call began;
* `iget_refs`, `iput_refs`, `namei_refs` — the code of `Path`, from any state;
* `readMaps_spec` — the maps of a device that fits are held block by block;
* `readSuper_spec`, `mountOn_spec`, `umountDev_spec` — the calls;
* `inv_step`, `inv_mountRoot`, `mount_table` — every sequence of calls, as long as the
  devices that are mounted fit;
* `mount_nine_blocks` — one that does not.
-/

namespace Linux011.Fs.Mount

open Linux011.Lib
open Linux011.Fs.Coherence (Record Slot rootIno lookEmpty lookup lookEmpty_unused)
open Linux011.Fs.OpenFile (isDir isBlk)
open Linux011.Fs.Path

variable {s s' s₀ : Path.State} {X X' : List Nat} {k : Nat}

/-! ## The inode table within a call -/

/-- A call that began in `s₀` has the references `X` more. Slots that were in use keep
their inode. -/
structure Refs (s₀ : Path.State) (X : List Nat) (s : Path.State) : Prop where
  super  : s.super = s₀.super
  task   : s.root = s₀.root ∧ s.pwd = s₀.pwd
  count  : ∀ i, i < nrInode → (s.slot i).count = (s₀.slot i).count + X.count i
  pinned : ∀ i, i < nrInode → (s₀.slot i).count ≠ 0 →
    s.keyOf i = s₀.keyOf i ∧ s.mount i = s₀.mount i
  loose  : ∀ i, i < nrInode → (s₀.slot i).count = 0 → s.mount i = false
  idle   : ∀ i, i < nrInode → (s.slot i).dev = 0 → (s.slot i).dirt = false
  clean  : ∀ i, i < nrInode → (s.slot i).count = 0 → (s.slot i).dirt = false
  known  : ∀ i, i < nrInode → (s.slot i).count ≠ 0 → (s.slot i).dev ≠ 0 →
    s.getSuper (s.slot i).dev ≠ none

/-- What the code may stop with: anything but the panic of `write_inode` that there is no
device. -/
def Quiet (e : Panic) (_ : Path.State) : Prop := e ≠ .writeNoDevice

theorem getSuper_congr (h : ∀ p, (s'.super p).dev = (s.super p).dev) (dev : Nat) :
    s'.getSuper dev = s.getSuper dev := by
  unfold Path.State.getSuper
  simp only [h]

theorem Refs.getSuper (h : Refs s₀ X s) (dev : Nat) : s.getSuper dev = s₀.getSuper dev :=
  getSuper_congr (fun p => by rw [h.super]) dev

theorem Refs.used (h : Refs s₀ (k :: X) s) (hk : k < nrInode) : (s.slot k).count ≠ 0 := by
  rw [h.count k hk, List.count_cons_self]
  omega

/-- One slot changes. If it was in use, it keeps its inode. -/
theorem Refs.update (h : Refs s₀ X s) (hk : k < nrInode)
    (hrest : s'.super = s.super ∧ s'.root = s.root ∧ s'.pwd = s.pwd)
    (hne : ∀ j, j ≠ k → s'.slot j = s.slot j ∧ s'.mount j = s.mount j)
    (hpin : (s₀.slot k).count ≠ 0 → s'.keyOf k = s.keyOf k ∧ s'.mount k = s.mount k)
    (hloose : (s₀.slot k).count = 0 → s'.mount k = false)
    (hidle : (s'.slot k).dev = 0 → (s'.slot k).dirt = false)
    (hclean : (s'.slot k).count = 0 → (s'.slot k).dirt = false)
    (hknown : (s'.slot k).count ≠ 0 → (s'.slot k).dev ≠ 0 → s.getSuper (s'.slot k).dev ≠ none)
    (hcount : (s'.slot k).count = (s₀.slot k).count + X'.count k)
    (hother : ∀ j, j ≠ k → X'.count j = X.count j) : Refs s₀ X' s' := by
  have hget : ∀ dev, s'.getSuper dev = s.getSuper dev := getSuper_congr fun p => by rw [hrest.1]
  have hkey : ∀ j, j ≠ k → s'.keyOf j = s.keyOf j := by
    intro j hj
    unfold State.keyOf
    rw [(hne j hj).1]
  refine ⟨hrest.1.trans h.super, ⟨hrest.2.1.trans h.task.1, hrest.2.2.trans h.task.2⟩, ?_, ?_, ?_, ?_,
    ?_, ?_⟩
  · intro j hj
    by_cases hjk : j = k
    · rw [hjk, hcount]
    · rw [(hne j hjk).1, hother j hjk]
      exact h.count j hj
  · intro j hj hused
    obtain ⟨hk₀, hm₀⟩ := h.pinned j hj hused
    by_cases hjk : j = k
    · subst hjk
      exact ⟨(hpin hused).1.trans hk₀, (hpin hused).2.trans hm₀⟩
    · exact ⟨(hkey j hjk).trans hk₀, (hne j hjk).2.trans hm₀⟩
  · intro j hj hfree
    by_cases hjk : j = k
    · subst hjk
      exact hloose hfree
    · exact (hne j hjk).2.trans (h.loose j hj hfree)
  · intro j hj
    by_cases hjk : j = k
    · subst hjk
      exact hidle
    · rw [(hne j hjk).1]
      exact h.idle j hj
  · intro j hj
    by_cases hjk : j = k
    · subst hjk
      exact hclean
    · rw [(hne j hjk).1]
      exact h.clean j hj
  · intro j hj
    rw [hget]
    by_cases hjk : j = k
    · subst hjk
      exact hknown
    · rw [(hne j hjk).1]
      exact h.known j hj

/-- A slot keeps its inode and changes otherwise. -/
theorem Refs.setSlot (h : Refs s₀ X s) (hk : k < nrInode) {x : Slot}
    (hdev : x.dev = (s.slot k).dev) (hnum : x.num = (s.slot k).num)
    (hidle : x.dev = 0 → x.dirt = false) (hclean : x.count = 0 → x.dirt = false)
    (hknown : x.count ≠ 0 → x.dev ≠ 0 → s.getSuper x.dev ≠ none)
    (hcount : x.count = (s₀.slot k).count + X'.count k)
    (hother : ∀ j, j ≠ k → X'.count j = X.count j) : Refs s₀ X' (s.setSlot k x) := by
  refine h.update hk ⟨rfl, rfl, rfl⟩ (fun j hj => ⟨slot_setSlot_of_ne hj x, rfl⟩) ?_
    (h.loose k hk) ?_ ?_ ?_ ?_ hother
  · intro _
    refine ⟨?_, rfl⟩
    unfold State.keyOf
    rw [slot_setSlot, hdev, hnum]
  · rw [slot_setSlot]
    exact hidle
  · rw [slot_setSlot]
    exact hclean
  · rw [slot_setSlot]
    exact hknown
  · rw [slot_setSlot]
    exact hcount

/-- A slot that was not in use gets another inode, or none. -/
theorem Refs.replace (h : Refs s₀ X s) (hk : k < nrInode) (hfree : (s₀.slot k).count = 0) {x : Slot}
    (hidle : x.dev = 0 → x.dirt = false) (hclean : x.count = 0 → x.dirt = false)
    (hknown : x.count ≠ 0 → x.dev ≠ 0 → s.getSuper x.dev ≠ none)
    (hcount : x.count = X'.count k) (hother : ∀ j, j ≠ k → X'.count j = X.count j) :
    Refs s₀ X' { s.setSlot k x with mount := Function.update s.mount k false } := by
  have hslot : ({ s.setSlot k x with mount := Function.update s.mount k false } : Path.State).slot k =
      x := Function.update_self ..
  refine h.update hk ⟨rfl, rfl, rfl⟩ (fun j hj => ⟨slot_setSlot_of_ne hj x, ?_⟩)
    (fun hused => absurd hfree hused) ?_ ?_ ?_ ?_ ?_ hother
  · exact Function.update_of_ne hj ..
  · exact fun _ => Function.update_self ..
  · rw [hslot]
    exact hidle
  · rw [hslot]
    exact hclean
  · rw [hslot]
    exact hknown
  · rw [hslot, hfree, Nat.zero_add]
    exact hcount

/-- A dirty inode is in use, and has a device. -/
theorem Refs.known_of_dirt (h : Refs s₀ X s) (hk : k < nrInode) (hdirt : (s.slot k).dirt ≠ false)
    (h0 : (s.slot k).dev ≠ 0) : s.getSuper (s.slot k).dev ≠ none :=
  h.known k hk (fun hz => hdirt (h.clean k hk hz)) h0

theorem writeInode_refs (h : Refs s₀ X s) (hk : k < nrInode) :
    wp (Path.writeInode k) (fun _ s' => Refs s₀ X s' ∧ Path.SameKeys s s' ∧ (s'.slot k).dirt = false)
      Quiet s := by
  unfold Path.writeInode
  rw [wp_bind, wp_get, wp_ite]
  refine ⟨fun hx => ?_, fun hx => ?_⟩
  · refine ⟨h, fun _ => rfl, ?_⟩
    rcases hx with hx | hx
    · exact hx
    · exact h.idle k hk hx
  · obtain ⟨hdirt, h0⟩ := not_or.mp hx
    rw [if_neg (h.known_of_dirt hk hdirt h0), wp_ite]
    refine ⟨fun _ => ?_, fun _ => ?_⟩
    · rw [wp_throw]
      exact fun he => by cases he
    rw [wp_set]
    have hslot : ({ s with core := s.core.store k } : Path.State).slot k =
        { s.slot k with dirt := false } := Function.update_self ..
    have hkey : ({ s with core := s.core.store k } : Path.State).keyOf k = s.keyOf k := by
      unfold State.keyOf
      rw [hslot]
    refine ⟨h.update hk ⟨rfl, rfl, rfl⟩ (fun j hj => ⟨Function.update_of_ne hj .., rfl⟩)
      (fun _ => ⟨hkey, rfl⟩) (h.loose k hk) ?_ ?_ ?_ ?_ fun _ _ => rfl, fun j => ?_, ?_⟩
    · rw [hslot]
      exact fun _ => rfl
    · rw [hslot]
      exact fun _ => rfl
    · rw [hslot]
      exact h.known k hk
    · rw [hslot]
      exact h.count k hk
    · by_cases hj : j = k
      · rw [hj]
        exact hkey
      · unfold State.keyOf
        rw [show ({ s with core := s.core.store k } : Path.State).slot j = s.slot j from
          Function.update_of_ne hj ..]
    · rw [hslot]

theorem syncInodes_refs (h : Refs s₀ X s) :
    wp syncInodes (fun _ s' => Refs s₀ X s' ∧ Path.SameKeys s s') Quiet s := by
  refine wp_upTo (I := fun _ s' => Refs s₀ X s' ∧ Path.SameKeys s s') (fun i s' hi hs' => ?_)
    ⟨h, fun _ => rfl⟩
  refine wp_mono (writeInode_refs hs'.1 hi) ?_ fun _ _ he => he
  rintro _ s'' ⟨hrefs, hkeys, -⟩
  exact ⟨hrefs, fun j => (hkeys j).trans (hs'.2 j)⟩

theorem addCount_refs (h : Refs s₀ X s) (hk : k < nrInode)
    (hknown : (s.slot k).dev ≠ 0 → s.getSuper (s.slot k).dev ≠ none) :
    wp (addCount k) (fun _ s' => Refs s₀ (k :: X) s' ∧ Path.SameKeys s s') Quiet s := by
  unfold addCount
  rw [wp_modify]
  refine ⟨h.setSlot hk rfl rfl (h.idle k hk) (fun hz => by cases hz) (fun _ => hknown) ?_ ?_, ?_⟩
  · show (s.slot k).count + 1 = _
    rw [h.count k hk, List.count_cons_self]
    omega
  · intro j hj
    rw [List.count_cons_of_ne (Ne.symm hj)]
  · exact Path.sameKeys_count s k _

/-- The other slots have the same inodes. -/
def OtherKeys (k : Nat) (s s' : Path.State) : Prop := ∀ j, j ≠ k → s'.keyOf j = s.keyOf j

theorem dropCount_refs (h : Refs s₀ (k :: X) s) (hk : k < nrInode)
    (hclean : (s.slot k).count = 1 → (s.slot k).dirt = false) :
    wp (dropCount k) (fun _ s' => Refs s₀ X s' ∧ OtherKeys k s s') Quiet s := by
  have hused := h.used hk
  unfold dropCount
  rw [wp_modify]
  refine ⟨h.setSlot hk rfl rfl (h.idle k hk) ?_ (fun _ => h.known k hk hused) ?_ ?_, ?_⟩
  · intro hz
    have hz' : (s.slot k).count - 1 = 0 := hz
    exact hclean (by omega)
  · show (s.slot k).count - 1 = _
    rw [h.count k hk, List.count_cons_self]
    omega
  · intro j hj
    rw [List.count_cons_of_ne (Ne.symm hj)]
  · intro j hj
    unfold State.keyOf
    rw [slot_setSlot_of_ne hj]

theorem putBody_refs (h : Refs s₀ (k :: X) s) (hk : k < nrInode) :
    wp (putBody k) (fun _ s' => Refs s₀ X s' ∧ OtherKeys k s s') Quiet s := by
  have hcount := h.count k hk
  rw [List.count_cons_self] at hcount
  unfold putBody
  rw [wp_bind, wp_get, wp_ite]
  refine ⟨fun hmany => dropCount_refs h hk fun hone => ?_, fun hlast => ?_⟩
  · rw [hone] at hmany
    omega
  rw [wp_ite]
  refine ⟨fun _ => ?_, fun _ => ?_⟩
  · -- the last reference to an inode without links
    rw [wp_modify]
    refine ⟨h.replace hk (by omega) (fun _ => rfl) (fun _ => rfl) (fun hz => absurd rfl hz) ?_ ?_, ?_⟩
    · show 0 = X.count k
      omega
    · intro j hj
      rw [List.count_cons_of_ne (Ne.symm hj)]
    · intro j hj
      unfold State.keyOf
      rw [show ({ s.setSlot k Slot.zero with mount := Function.update s.mount k false } :
        Path.State).slot j = s.slot j from slot_setSlot_of_ne hj _]
  · rw [wp_bind]
    refine wp_mono (writeInode_refs h hk) ?_ fun _ _ he => he
    rintro _ s₁ ⟨h₁, hkeys₁, hclean⟩
    refine wp_mono (dropCount_refs h₁ hk fun _ => hclean) ?_ fun _ _ he => he
    rintro _ s₂ ⟨h₂, hkeys₂⟩
    exact ⟨h₂, fun j hj => (hkeys₂ j hj).trans (hkeys₁ j)⟩

theorem iput_refs (h : Refs s₀ (k :: X) s) (hk : k < nrInode) :
    wp (iput k) (fun _ s' => Refs s₀ X s' ∧ OtherKeys k s s') Quiet s := by
  unfold iput
  rw [wp_bind, wp_get, if_neg (h.used hk), wp_ite]
  refine ⟨fun h0 => dropCount_refs h hk fun _ => h.idle k hk h0, fun _ => ?_⟩
  rw [wp_ite]
  refine ⟨fun _ => ?_, fun _ => putBody_refs h hk⟩
  rw [wp_bind]
  refine wp_mono (syncInodes_refs h) ?_ fun _ _ he => he
  rintro _ s₁ ⟨h₁, hkeys₁⟩
  refine wp_mono (putBody_refs h₁ hk) ?_ fun _ _ he => he
  rintro _ s₂ ⟨h₂, hkeys₂⟩
  exact ⟨h₂, fun j hj => (hkeys₂ j hj).trans (hkeys₁ j)⟩

/-- What `get_empty_inode` gives: a slot that was not in use and has no inode. -/
structure Unused (s₀ : Path.State) (X : List Nat) (e : Nat) (s : Path.State) : Prop where
  refs : Refs s₀ (e :: X) s
  lt   : e < nrInode
  free : (s₀.slot e).count = 0
  dev  : (s.slot e).dev = 0
  one  : (s.slot e).count = 1 ∧ X.count e = 0

theorem getEmptyInode_refs (h : Refs s₀ X s) :
    wp getEmptyInode (fun e s' => Unused s₀ X e s') Quiet s := by
  unfold getEmptyInode
  rw [wp_bind, wp_get, wp_bind, wp_set]
  have hlast : Refs s₀ X { s with core := { s.core with
      last := (lookEmpty s.core.inode nrInode s.core.last none).1 } } :=
    ⟨h.super, h.task, h.count, h.pinned, h.loose, h.idle, h.clean, h.known⟩
  cases hfound : (lookEmpty s.core.inode nrInode s.core.last none).2 with
  | none =>
    dsimp only
    rw [wp_throw]
    exact fun he => by cases he
  | some e =>
    obtain ⟨he, hunused⟩ := lookEmpty_unused (fun _ hn => by cases hn) hfound
    have hcount := h.count e he
    have hunused' : (s.slot e).count = 0 := hunused
    have hfree : (s₀.slot e).count = 0 := by omega
    have hzero : X.count e = 0 := by omega
    dsimp only
    rw [wp_bind]
    refine wp_mono (writeInode_refs hlast he) ?_ fun _ _ he => he
    rintro _ s₁ ⟨h₁, -, hclean⟩
    rw [wp_bind, wp_get, if_neg (by rw [hclean]; decide), wp_bind, wp_modify, wp_pure]
    have hslot : ({ s₁.setSlot e { Slot.zero with count := 1 } with
        mount := Function.update s₁.mount e false } : Path.State).slot e =
        { Slot.zero with count := 1 } := Function.update_self ..
    refine ⟨h₁.replace he hfree (fun _ => rfl) (fun hz => by cases hz) (fun _ h0 => absurd rfl h0) ?_
      ?_, he, hfree, by rw [hslot]; rfl, by rw [hslot], hzero⟩
    · rw [List.count_cons_self, hzero]
    · intro j hj
      rw [List.count_cons_of_ne (Ne.symm hj)]

/-- The mounted super blocks have a device and cover a slot that is in use. -/
def Sound (s₀ : Path.State) : Prop := ∀ p i, p < nrSuper → (s₀.super p).imount = some i →
  (s₀.super p).dev ≠ 0 ∧ i < nrInode ∧ (s₀.slot i).count ≠ 0

theorem getSuper_of_dev {p : Nat} (hp : p < nrSuper) (h0 : (s.super p).dev ≠ 0) :
    s.getSuper (s.super p).dev ≠ none := by
  unfold Path.State.getSuper
  rw [if_neg h0]
  intro hnone
  have := List.find?_eq_none.mp hnone p (List.mem_range.mpr hp)
  simp at this

theorem dev_of_super {dev : Nat} (h : s.getSuper dev ≠ none) :
    dev ≠ 0 ∧ ∃ p, p < nrSuper ∧ (s.super p).dev = dev ∧ s.getSuper dev = some p := by
  refine ⟨dev_of_getSuper h, ?_⟩
  obtain ⟨p, hp⟩ := Option.ne_none_iff_exists'.mp h
  have hfind := hp
  unfold Path.State.getSuper at hfind
  rw [if_neg (dev_of_getSuper h)] at hfind
  exact ⟨p, List.mem_range.mp (List.mem_of_find?_eq_some hfind),
    by simpa using List.find?_some hfind, hp⟩

/-- A call after another. -/
theorem Refs.trans {s₁ : Path.State} (h : Refs s₀ X s₁) (h' : Refs s₁ X' s) :
    Refs s₀ (X' ++ X) s := by
  have hused : ∀ i, i < nrInode → (s₀.slot i).count ≠ 0 → (s₁.slot i).count ≠ 0 := by
    intro i hi hz
    rw [h.count i hi]
    omega
  refine ⟨h'.super.trans h.super, ⟨h'.task.1.trans h.task.1, h'.task.2.trans h.task.2⟩, ?_, ?_, ?_,
    h'.idle, h'.clean, h'.known⟩
  · intro i hi
    rw [h'.count i hi, h.count i hi, List.count_append]
    omega
  · intro i hi hz
    obtain ⟨hk, hm⟩ := h.pinned i hi hz
    obtain ⟨hk', hm'⟩ := h'.pinned i hi (hused i hi hz)
    exact ⟨hk'.trans hk, hm'.trans hm⟩
  · intro i hi hz
    by_cases hz₁ : (s₁.slot i).count = 0
    · exact h'.loose i hi hz₁
    · rw [(h'.pinned i hi hz₁).2]
      exact h.loose i hi hz

theorem Refs.swap {a b : Nat} (h : Refs s₀ (a :: b :: X) s) : Refs s₀ (b :: a :: X) s :=
  { h with count := fun i hi => by rw [h.count i hi, (List.Perm.swap b a X).count_eq] }

/-- A slot has one more reference. -/
def Gets (s₀ : Path.State) (X : List Nat) (k : Nat) (s : Path.State) : Prop :=
  Refs s₀ (k :: X) s ∧ k < nrInode

/-- A slot has one more reference, and an inode of a device. -/
def GetsInode (s₀ : Path.State) (X : List Nat) (k : Nat) (s : Path.State) : Prop :=
  Gets s₀ X k s ∧ (s.slot k).dev ≠ 0

theorem scan_refs (hsound : Sound s₀) {n dev nr e : Nat} (h : Unused s₀ X e s)
    (hdev : s.getSuper dev ≠ none) : wp (scan n dev nr e) (GetsInode s₀ X) Quiet s := by
  induction n generalizing dev nr s with
  | zero =>
    unfold scan
    rw [wp_throw]
    exact fun he => by cases he
  | succ n ih =>
    unfold scan
    rw [wp_bind, wp_get]
    cases hlook : lookup s.core.inode dev nr with
    -- not in core: the unused slot gets it, and is read
    | none =>
      dsimp only
      rw [wp_bind, wp_set, wp_bind]
      unfold Path.readInode
      rw [wp_bind, wp_get, wp_ite]
      refine ⟨fun _ => ?_, fun _ => ?_⟩
      · rw [wp_throw]
        exact fun he => by cases he
      rw [wp_ite]
      refine ⟨fun _ => ?_, fun _ => ?_⟩
      · rw [wp_throw]
        exact fun he => by cases he
      rw [wp_set, wp_pure, slot_setSlot]
      have hdirt := h.refs.idle e h.lt h.dev
      refine ⟨⟨h.refs.update h.lt ⟨rfl, rfl, rfl⟩ (fun j hj => ⟨?_, rfl⟩)
        (fun hused => absurd h.free hused) (h.refs.loose e h.lt) ?_ ?_ ?_ ?_ fun _ _ => rfl, h.lt⟩, ?_⟩
      · rw [slot_setSlot_of_ne hj, slot_setSlot_of_ne hj]
      · rw [slot_setSlot]
        exact fun _ => hdirt
      · rw [slot_setSlot]
        exact fun _ => hdirt
      · rw [slot_setSlot]
        exact fun _ _ => hdev
      · rw [slot_setSlot]
        exact h.refs.count e h.lt
      · rw [slot_setSlot]
        exact dev_of_getSuper hdev
    -- in core: where something is mounted on it the search goes on at the root there
    | some i =>
      obtain ⟨hi, hkey⟩ := lookup_eq_some hlook
      dsimp only
      rw [wp_bind]
      refine wp_mono (addCount_refs h.refs hi fun _ => by rw [keyOf_dev hkey]; exact hdev) ?_
        fun _ _ he => he
      rintro _ s₁ ⟨h₁, hkeys₁⟩
      have hne : e ≠ i := by
        rintro rfl
        exact dev_of_getSuper hdev ((keyOf_dev hkey).symm.trans h.dev)
      have hget : wp (do Path.iput e
                         return i) (GetsInode s₀ X) Quiet s₁ := by
        rw [wp_bind]
        refine wp_mono (iput_refs h₁.swap h.lt) ?_ fun _ _ he => he
        rintro _ s₂ ⟨h₂, hkeys₂⟩
        refine ⟨⟨h₂, hi⟩, ?_⟩
        rw [keyOf_dev ((hkeys₂ i (Ne.symm hne)).trans ((hkeys₁ i).trans hkey))]
        exact dev_of_getSuper hdev
      rw [wp_ite]
      refine ⟨fun _ => ?_, fun _ => hget⟩
      cases hon : s.superOn i with
      | none => exact hget
      | some p =>
        dsimp only
        have hp : p < nrSuper := List.mem_range.mp (List.mem_of_find?_eq_some hon)
        have himount : (s.super p).imount = some i := by simpa using List.find?_some hon
        rw [wp_bind]
        refine wp_mono (iput_refs h₁ hi) ?_ fun _ _ he => he
        rintro _ s₂ ⟨h₂, hkeys₂⟩
        rw [h.refs.super] at himount ⊢
        have hcount := h₂.count e h.lt
        rw [h.free, List.count_cons_self, h.one.2] at hcount
        refine ih ⟨h₂, h.lt, h.free, ?_, hcount, h.one.2⟩ ?_
        · exact (keyOf_dev (hkeys₂ e hne)).trans ((keyOf_dev (hkeys₁ e)).trans h.dev)
        · have hp0 := (hsound p i hp himount).1
          rw [← h₂.super] at hp0 ⊢
          exact getSuper_of_dev hp hp0

theorem iget_refs (hsound : Sound s₀) (h : Refs s₀ X s) {dev nr : Nat}
    (hdev : dev ≠ 0 → s.getSuper dev ≠ none) : wp (iget dev nr) (GetsInode s₀ X) Quiet s := by
  unfold iget
  rw [wp_ite]
  refine ⟨fun _ => ?_, fun h0 => ?_⟩
  · rw [wp_throw]
    exact fun he => by cases he
  rw [wp_bind]
  refine wp_mono (getEmptyInode_refs h) ?_ fun _ _ he => he
  intro e s₁ h₁
  refine scan_refs hsound h₁ ?_
  rw [h₁.refs.getSuper, ← h.getSuper]
  exact hdev h0

theorem findLoop_refs {dev : Nat} {zone : Nat → Nat} {name : Name} {entries n i block : Nat} :
    wp (s'.findLoop dev zone name entries n i block) (fun _ s₁ => s₁ = s) Quiet s := by
  induction n generalizing i block with
  | zero => exact rfl
  | succ n ih =>
    unfold Path.State.findLoop
    rw [wp_ite]
    refine ⟨fun _ => rfl, fun _ => ?_⟩
    rw [wp_ite]
    refine ⟨fun _ => ?_, fun _ => ?_⟩
    · cases s'.bmap dev zone (i / dirEntriesPerBlock) with
      | none =>
        dsimp only
        rw [wp_throw]
        exact fun he => by cases he
      | some b =>
        dsimp only
        rw [wp_ite, wp_ite]
        exact ⟨fun _ => ih, fun _ => ⟨fun _ => rfl, fun _ => ih⟩⟩
    · rw [wp_ite]
      exact ⟨fun _ => rfl, fun _ => ih⟩

theorem findIn_refs {name : Name} {entries : Nat} :
    wp (findIn k name entries) (fun r s₁ => r.1 = k ∧ s₁ = s) Quiet s := by
  unfold findIn
  rw [wp_bind, wp_get, wp_ite]
  refine ⟨fun _ => ⟨rfl, rfl⟩, fun _ => ?_⟩
  rw [wp_bind]
  refine wp_mono findLoop_refs ?_ fun _ _ he => he
  rintro nr s₁ rfl
  exact ⟨rfl, rfl⟩

theorem swap_refs (hsound : Sound s₀) (h : Refs s₀ (k :: X) s) (hk : k < nrInode) {name : Name} :
    wp (swap k name) (fun r s' => Gets s₀ X r.1 s') Quiet s := by
  unfold Path.swap
  rw [wp_bind, wp_get, wp_ite, wp_ite, wp_ite]
  refine ⟨fun _ => ⟨h, hk⟩, fun _ => ⟨fun _ => ⟨h, hk⟩, fun _ => ⟨fun _ => ⟨h, hk⟩, fun _ => ?_⟩⟩⟩
  cases hp : s.getSuper (s.slot k).dev with
  | none =>
    dsimp only
    rw [wp_throw]
    exact fun he => by cases he
  | some p =>
    dsimp only
    cases himount : (s.super p).imount with
    | none => exact ⟨h, hk⟩
    | some j =>
      dsimp only
      obtain ⟨-, q, hq, -, hqp⟩ := dev_of_super (by rw [hp]; exact Option.some_ne_none p)
      obtain rfl : p = q := Option.some.inj (hp.symm.trans hqp)
      rw [h.super] at himount
      obtain ⟨-, hj, hused⟩ := hsound p j hq himount
      rw [wp_bind]
      refine wp_mono (iput_refs h hk) ?_ fun _ _ he => he
      rintro _ s₁ ⟨h₁, -⟩
      have hused₁ : (s₁.slot j).count ≠ 0 := by
        rw [h₁.count j hj]
        omega
      rw [wp_bind]
      refine wp_mono (addCount_refs h₁ hj (h₁.known j hj hused₁)) ?_ fun _ _ he => he
      rintro _ s₂ ⟨h₂, -⟩
      exact ⟨h₂, hj⟩

theorem findEntry_refs (hsound : Sound s₀) (h : Refs s₀ (k :: X) s) (hk : k < nrInode)
    {name : Name} : wp (findEntry k name) (fun r s' => Gets s₀ X r.1 s') Quiet s := by
  unfold findEntry
  rw [wp_bind, wp_get, wp_ite]
  refine ⟨fun _ => ⟨h, hk⟩, fun _ => ?_⟩
  rw [wp_bind]
  refine wp_mono (swap_refs hsound h hk) ?_ fun _ _ he => he
  rintro r s₁ h₁
  refine wp_mono findIn_refs ?_ fun _ _ he => he
  rintro r' s₂ ⟨hr, rfl⟩
  rw [hr]
  exact h₁

/-- The references of a call that has found an inode, or has not. -/
def Yields (s₀ : Path.State) (X : List Nat) (r : Option Nat) (s : Path.State) : Prop :=
  Refs s₀ (r.toList ++ X) s ∧ ∀ k, r = some k → k < nrInode ∧ (s.slot k).dev ≠ 0

theorem give_up_refs (h : Refs s₀ (k :: X) s) (hk : k < nrInode) :
    wp (do iput k
           return none) (Yields s₀ X) Quiet s := by
  rw [wp_bind]
  refine wp_mono (iput_refs h hk) ?_ fun _ _ he => he
  rintro _ s₁ ⟨h₁, -⟩
  exact ⟨h₁, fun k hn => by cases hn⟩

theorem next_refs (hsound : Sound s₀) (h : Refs s₀ (k :: X) s) (hk : k < nrInode) {name : Name} :
    wp (next k name) (Yields s₀ X) Quiet s := by
  unfold next
  rw [wp_bind]
  refine wp_mono (findEntry_refs hsound h hk) ?_ fun _ _ he => he
  rintro ⟨d, nr⟩ s₁ ⟨h₁, hd⟩
  cases nr with
  | none =>
    dsimp only
    rw [wp_bind]
    refine wp_mono (iput_refs h₁ hd) ?_ fun _ _ he => he
    rintro _ s₂ ⟨h₂, -⟩
    exact ⟨h₂, fun k hn => by cases hn⟩
  | some nr =>
    dsimp only
    have hknown : (s₁.slot d).dev ≠ 0 → s₁.getSuper (s₁.slot d).dev ≠ none :=
      h₁.known d hd (h₁.used hd)
    rw [wp_bind, wp_get, wp_bind]
    refine wp_mono (iput_refs h₁ hd) ?_ fun _ _ he => he
    rintro _ s₂ ⟨h₂, -⟩
    rw [wp_bind]
    refine wp_mono (iget_refs hsound h₂ ?_) ?_ fun _ _ he => he
    · rw [h₂.getSuper, ← h₁.getSuper]
      exact hknown
    · rintro j s₃ ⟨⟨h₃, hj⟩, hdev⟩
      refine ⟨h₃, fun k hk => ?_⟩
      cases hk
      exact ⟨hj, hdev⟩

theorem getDirLoop_refs (hsound : Sound s₀) {path thisname : Name} (h : Refs s₀ (k :: X) s)
    (hk : k < nrInode ∧ (s.slot k).dev ≠ 0) :
    wp (getDirLoop path k thisname) (Yields s₀ X) Quiet s := by
  induction path generalizing k s thisname with
  | nil =>
    refine ⟨h, fun j hj => ?_⟩
    cases hj
    exact hk
  | cons c path ih =>
    unfold getDirLoop
    rw [wp_ite]
    refine ⟨fun _ => ?_, fun _ => ih h hk⟩
    rw [wp_bind]
    refine wp_mono (next_refs hsound h hk.1) ?_ fun _ _ he => he
    rintro r s₁ ⟨h₁, hr⟩
    cases r with
    | none => exact ⟨h₁, hr⟩
    | some j =>
      dsimp only
      rw [wp_bind, wp_get, wp_ite]
      exact ⟨fun _ => ih h₁ (hr j rfl), fun _ => give_up_refs h₁ (hr j rfl).1⟩

theorem namei_refs (hsound : Sound s₀) (h : Refs s₀ X s)
    (hroot : s.root < nrInode ∧ (s.slot s.root).dev ≠ 0)
    (hpwd : s.pwd < nrInode ∧ (s.slot s.pwd).dev ≠ 0) (path : Name) :
    wp (namei path) (Yields s₀ X) Quiet s := by
  have hdir : wp (getDir path) (Yields s₀ X) Quiet s := by
    unfold getDir
    rw [wp_bind, wp_get, wp_ite]
    refine ⟨fun _ => ?_, fun hr => ?_⟩
    · rw [wp_throw]
      exact fun he => by cases he
    rw [wp_ite]
    refine ⟨fun _ => ?_, fun hw => ?_⟩
    · rw [wp_throw]
      exact fun he => by cases he
    cases path with
    | nil => exact ⟨h, fun k hk => by cases hk⟩
    | cons c rest =>
      dsimp only
      obtain ⟨hk, hdev, hused⟩ : (if c = slash then s.root else s.pwd) < nrInode ∧
          (s.slot (if c = slash then s.root else s.pwd)).dev ≠ 0 ∧
          (s.slot (if c = slash then s.root else s.pwd)).count ≠ 0 := by
        split
        · exact ⟨hroot.1, hroot.2, hr⟩
        · exact ⟨hpwd.1, hpwd.2, hw⟩
      generalize (if c = slash then s.root else s.pwd) = k at hk hdev hused ⊢
      rw [wp_bind]
      refine wp_mono (addCount_refs h hk (h.known k hk hused)) ?_ fun _ _ he => he
      rintro _ s₁ ⟨h₁, hkeys₁⟩
      have hdev₁ : (s₁.slot k).dev ≠ 0 := by
        rw [keyOf_dev (hkeys₁ k)]
        exact hdev
      rw [wp_bind, wp_get, wp_ite]
      exact ⟨fun _ => getDirLoop_refs hsound h₁ ⟨hk, hdev₁⟩, fun _ => give_up_refs h₁ hk⟩
  unfold namei dirNamei
  rw [wp_bind, wp_bind]
  refine wp_mono hdir ?_ fun _ _ he => he
  rintro r s₁ ⟨h₁, hr⟩
  cases r with
  | none => exact ⟨h₁, hr⟩
  | some dir =>
    dsimp only
    rw [wp_pure, wp_ite]
    refine ⟨fun _ => ⟨h₁, hr⟩, fun _ => ?_⟩
    rw [wp_bind]
    refine wp_mono (next_refs hsound h₁ (hr dir rfl).1) ?_ fun _ _ he => he
    rintro r s₂ ⟨h₂, hr₂⟩
    cases r with
    | none => exact ⟨h₂, hr₂⟩
    | some k =>
      dsimp only
      obtain ⟨hk, hdev⟩ := hr₂ k rfl
      have hused := Refs.used h₂ hk
      rw [wp_bind, wp_modify, wp_pure]
      refine ⟨?_, fun j hj => ?_⟩
      · exact h₂.setSlot hk rfl rfl (fun h0 => absurd h0 hdev) (fun hz => absurd hz hused)
          (h₂.known k hk) (h₂.count k hk) fun _ _ => rfl
      · cases hj
        rw [slot_setSlot]
        exact ⟨hk, hdev⟩

/-! ## The mount table between calls -/

/-- How many super blocks cover a slot. -/
def mountsOn (super : Nat → Super) (i : Nat) : Nat :=
  Lib.refs (Finset.range nrSuper) (fun p => (super p).imount) i

theorem mountsOn_pos {super : Nat → Super} {p i : Nat} (hp : p < nrSuper)
    (h : (super p).imount = some i) : 0 < mountsOn super i :=
  refs_pos_iff.mpr ⟨p, Finset.mem_range.mpr hp, h⟩

theorem mountsOn_update (super : Nat → Super) {p : Nat} (hp : p < nrSuper) (x : Super) (i : Nat) :
    mountsOn (Function.update super p x) i + (if (super p).imount = some i then 1 else 0) =
      mountsOn super i + (if x.imount = some i then 1 else 0) := by
  have hcells : (fun q => (Function.update super p x q).imount) =
      Function.update (fun q => (super q).imount) p x.imount := by
    funext q
    by_cases hq : q = p
    · rw [hq, Function.update_self, Function.update_self]
    · rw [Function.update_of_ne hq, Function.update_of_ne hq]
  unfold mountsOn
  rw [hcells]
  exact refs_update (Finset.mem_range.mpr hp) x.imount i

/-- The super blocks in use have a device and a slot each for themselves. -/
structure Apart (super : Nat → Super) : Prop where
  inUse : ∀ p, p < nrSuper → (super p).dev ≠ 0 → (super p).imount ≠ none
  devs  : ∀ p q, p < nrSuper → q < nrSuper → (super p).dev ≠ 0 → (super q).dev = (super p).dev → q = p
  ons   : ∀ p q i, p < nrSuper → q < nrSuper → (super p).imount = some i →
    (super q).imount = some i → q = p

theorem Apart.update {super : Nat → Super} (h : Apart super) {p : Nat} {x : Super}
    (hx : x.dev ≠ 0 → x.imount ≠ none)
    (hdevs : ∀ q, q < nrSuper → q ≠ p → x.dev ≠ 0 → (super q).dev ≠ x.dev)
    (hons : ∀ q i, q < nrSuper → q ≠ p → x.imount = some i → (super q).imount ≠ some i) :
    Apart (Function.update super p x) := by
  constructor
  · intro q hq
    by_cases hqp : q = p
    · subst hqp
      rwa [Function.update_self]
    · rw [Function.update_of_ne hqp]
      exact h.inUse q hq
  · intro q q' hq hq' hd heq
    by_cases hqp : q = p <;> by_cases hqp' : q' = p
    · exact hqp'.trans hqp.symm
    · rw [hqp, Function.update_self] at hd heq
      rw [Function.update_of_ne hqp'] at heq
      exact absurd heq (hdevs q' hq' hqp' hd)
    · rw [Function.update_of_ne hqp] at hd heq
      rw [hqp', Function.update_self] at heq
      exact absurd heq.symm (hdevs q hq hqp (heq ▸ hd))
    · rw [Function.update_of_ne hqp] at hd heq
      rw [Function.update_of_ne hqp'] at heq
      exact h.devs q q' hq hq' hd heq
  · intro q q' i hq hq' hqi hqi'
    by_cases hqp : q = p <;> by_cases hqp' : q' = p
    · exact hqp'.trans hqp.symm
    · rw [hqp, Function.update_self] at hqi
      rw [Function.update_of_ne hqp'] at hqi'
      exact absurd hqi' (hons q' i hq' hqp' hqi)
    · rw [Function.update_of_ne hqp] at hqi
      rw [hqp', Function.update_self] at hqi'
      exact absurd hqi (hons q i hq hqp hqi')
    · rw [Function.update_of_ne hqp] at hqi
      rw [Function.update_of_ne hqp'] at hqi'
      exact h.ons q q' i hq hq' hqi hqi'

/-- The counts are those of the references and of the super blocks; a slot is marked
covered as a super block says, but for the root device; every super block in use covers
a slot of its own, which is no root. -/
structure Inv (m : State) : Prop where
  count : ∀ i, i < nrInode → (m.fs.slot i).count = m.refs.count i + mountsOn m.fs.super i
  idle  : ∀ i, i < nrInode → (m.fs.slot i).dev = 0 → (m.fs.slot i).dirt = false
  clean : ∀ i, i < nrInode → (m.fs.slot i).count = 0 → (m.fs.slot i).dirt = false
  known : ∀ i, i < nrInode → (m.fs.slot i).count ≠ 0 → (m.fs.slot i).dev ≠ 0 →
    m.fs.getSuper (m.fs.slot i).dev ≠ none
  flag  : ∀ i, i < nrInode → (m.fs.mount i = true ↔
    ∃ p, p < nrSuper ∧ (m.fs.super p).dev ≠ m.rootDev ∧ (m.fs.super p).imount = some i)
  super : ∀ p i, p < nrSuper → (m.fs.super p).imount = some i → i < nrInode ∧
    (m.fs.super p).dev ≠ 0 ∧ ((m.fs.super p).dev ≠ m.rootDev → (m.fs.slot i).num ≠ rootIno)
  inUse : ∀ p, p < nrSuper → (m.fs.super p).dev ≠ 0 → (m.fs.super p).imount ≠ none
  devs  : ∀ p q, p < nrSuper → q < nrSuper → (m.fs.super p).dev ≠ 0 →
    (m.fs.super q).dev = (m.fs.super p).dev → q = p
  ons   : ∀ p q i, p < nrSuper → q < nrSuper → (m.fs.super p).imount = some i →
    (m.fs.super q).imount = some i → q = p
  isup  : ∀ p, p < nrSuper → (m.fs.super p).dev ≠ m.rootDev → m.isup p = none
  root  : m.fs.getSuper m.rootDev ≠ none
  tasks : ∀ k, k = m.fs.root ∨ k = m.fs.pwd → k ∈ m.refs ∧ (m.fs.slot k).dev ≠ 0
  refs  : ∀ i, i ∈ m.refs → i < nrInode

variable {m m' : State}

theorem Inv.apart (h : Inv m) : Apart m.fs.super := ⟨h.inUse, h.devs, h.ons⟩

/-- Nothing is kept of the super block that changes. -/
theorem Inv.isup_update (h : Inv m) {p : Nat} {x : Super} :
    ∀ q, q < nrSuper → (Function.update m.fs.super p x q).dev ≠ m.rootDev →
      Function.update m.isup p none q = none := by
  intro q hq hd
  by_cases hqp : q = p
  · rw [hqp, Function.update_self]
  · rw [Function.update_of_ne hqp] at hd ⊢
    exact h.isup q hq hd

theorem Inv.covered (h : Inv m) {p i : Nat} (hp : p < nrSuper)
    (himount : (m.fs.super p).imount = some i) : (m.fs.slot i).count ≠ 0 := by
  have hpos := mountsOn_pos hp himount
  rw [h.count i (h.super p i hp himount).1]
  omega

theorem Inv.sound (h : Inv m) : Sound m.fs := by
  intro p i hp himount
  obtain ⟨hi, h0, -⟩ := h.super p i hp himount
  exact ⟨h0, hi, h.covered hp himount⟩

theorem Inv.loose (h : Inv m) {i : Nat} (hi : i < nrInode) (hfree : (m.fs.slot i).count = 0) :
    m.fs.mount i = false := by
  by_contra hmount
  obtain ⟨p, hp, -, himount⟩ := (h.flag i hi).mp (by simpa using hmount)
  exact h.covered hp himount hfree

theorem Inv.refs_self (h : Inv m) : Refs m.fs [] m.fs :=
  ⟨rfl, ⟨rfl, rfl⟩, fun _ _ => rfl, fun _ _ _ => ⟨rfl, rfl⟩, fun _ hi hfree => h.loose hi hfree,
    h.idle, h.clean, h.known⟩

theorem Inv.used (h : Inv m) (hk : k ∈ m.refs) : (m.fs.slot k).count ≠ 0 := by
  have hpos := List.count_pos_iff.mpr hk
  rw [h.count k (h.refs k hk)]
  omega

/-- After a piece of a call that began in `s₀`, where the references were `R`. -/
theorem Inv.after (h : Inv m) {R : List Nat} {fs : Path.State} (hr : Refs s₀ X fs)
    (hsuper : s₀.super = m.fs.super)
    (hcount : ∀ i, i < nrInode → (s₀.slot i).count = R.count i + mountsOn m.fs.super i)
    (hsame : ∀ i, i < nrInode → (s₀.slot i).count ≠ 0 →
      s₀.keyOf i = m.fs.keyOf i ∧ s₀.mount i = m.fs.mount i)
    (htasks : s₀.root = m.fs.root ∧ s₀.pwd = m.fs.pwd)
    (hkeep : ∀ k, k = m.fs.root ∨ k = m.fs.pwd → k ∈ R) (hrefs : ∀ i, i ∈ X ++ R → i < nrInode) :
    Inv { m with fs := fs, refs := X ++ R } := by
  have hsup : fs.super = m.fs.super := hr.super.trans hsuper
  have hused : ∀ p i, p < nrSuper → (m.fs.super p).imount = some i → (s₀.slot i).count ≠ 0 := by
    intro p i hp himount
    have hpos := mountsOn_pos hp himount
    rw [hcount i (h.super p i hp himount).1]
    omega
  refine ⟨?_, hr.idle, hr.clean, hr.known, ?_, ?_, ?_, ?_, ?_, ?_, ?_, ?_, hrefs⟩
  · intro i hi
    show (fs.slot i).count = (X ++ R).count i + mountsOn fs.super i
    rw [hr.count i hi, hcount i hi, hsup, List.count_append]
    omega
  · intro i hi
    show fs.mount i = true ↔ ∃ p, p < nrSuper ∧ (fs.super p).dev ≠ m.rootDev ∧
      (fs.super p).imount = some i
    rw [hsup, ← h.flag i hi]
    by_cases hz : (s₀.slot i).count = 0
    · rw [hr.loose i hi hz]
      refine ⟨fun hf => (by cases hf), fun hm => ?_⟩
      obtain ⟨p, hp, -, himount⟩ := (h.flag i hi).mp hm
      exact absurd hz (hused p i hp himount)
    · rw [(hr.pinned i hi hz).2, (hsame i hi hz).2]
  · intro p i hp himount
    replace himount : (fs.super p).imount = some i := himount
    show i < nrInode ∧ (fs.super p).dev ≠ 0 ∧ ((fs.super p).dev ≠ m.rootDev → (fs.slot i).num ≠ rootIno)
    rw [hsup] at himount ⊢
    obtain ⟨hi, h0, hnum⟩ := h.super p i hp himount
    have hz := hused p i hp himount
    rw [keyOf_num ((hr.pinned i hi hz).1.trans (hsame i hi hz).1)]
    exact ⟨hi, h0, hnum⟩
  · show ∀ p, p < nrSuper → (fs.super p).dev ≠ 0 → (fs.super p).imount ≠ none
    rw [hsup]
    exact h.inUse
  · show ∀ p q, p < nrSuper → q < nrSuper → (fs.super p).dev ≠ 0 →
      (fs.super q).dev = (fs.super p).dev → q = p
    rw [hsup]
    exact h.devs
  · show ∀ p q i, p < nrSuper → q < nrSuper → (fs.super p).imount = some i →
      (fs.super q).imount = some i → q = p
    rw [hsup]
    exact h.ons
  · show ∀ p, p < nrSuper → (fs.super p).dev ≠ m.rootDev → m.isup p = none
    rw [hsup]
    exact h.isup
  · show fs.getSuper m.rootDev ≠ none
    rw [getSuper_congr (s := m.fs) fun p => by rw [hsup]]
    exact h.root
  · intro k hk
    replace hk : k = m.fs.root ∨ k = m.fs.pwd := by
      rw [← htasks.1, ← htasks.2, ← hr.task.1, ← hr.task.2]
      exact hk
    have hmem := hkeep k hk
    have hlt := hrefs k (List.mem_append_right X hmem)
    have hz : (s₀.slot k).count ≠ 0 := by
      have hpos := List.count_pos_iff.mpr hmem
      rw [hcount k hlt]
      omega
    refine ⟨List.mem_append_right X hmem, ?_⟩
    show (fs.slot k).dev ≠ 0
    rw [keyOf_dev ((hr.pinned k hlt hz).1.trans (hsame k hlt hz).1)]
    exact (h.tasks k hk).2

/-- After a piece that takes the references `X`. -/
theorem Inv.more (h : Inv m) {fs : Path.State} (hr : Refs m.fs X fs)
    (hX : ∀ i, i ∈ X → i < nrInode) : Inv { m with fs := fs, refs := X ++ m.refs } := by
  refine h.after hr rfl h.count (fun _ _ _ => ⟨rfl, rfl⟩) ⟨rfl, rfl⟩ (fun k hk => (h.tasks k hk).1) ?_
  intro i hi
  rcases List.mem_append.mp hi with hi | hi
  · exact hX i hi
  · exact h.refs i hi

theorem Inv.task (h : Inv m) {k : Nat} (hk : k = m.fs.root ∨ k = m.fs.pwd) :
    k < nrInode ∧ (m.fs.slot k).dev ≠ 0 :=
  ⟨h.refs k (h.tasks k hk).1, (h.tasks k hk).2⟩

/-- The state from where a slot has one reference less. -/
def less (s : Path.State) (k : Nat) : Path.State :=
  s.setSlot k { s.slot k with count := (s.slot k).count - 1 }

theorem keyOf_less (s : Path.State) (k j : Nat) : (less s k).keyOf j = s.keyOf j := by
  unfold State.keyOf less
  by_cases hj : j = k
  · rw [hj, slot_setSlot]
  · rw [slot_setSlot_of_ne hj]

theorem count_less {j : Nat} (hused : (s.slot k).count ≠ 0) :
    (s.slot j).count = ((less s k).slot j).count + [k].count j := by
  unfold less
  by_cases hj : j = k
  · subst hj
    rw [slot_setSlot, List.count_singleton_self]
    show (s.slot j).count = (s.slot j).count - 1 + 1
    omega
  · rw [slot_setSlot_of_ne hj, List.count_cons_of_ne (Ne.symm hj)]
    rfl

theorem inv_piece (h : Inv m) {R : List Nat} {fs : Path.State} (hp : Piece m R fs) :
    Inv { m with fs := fs, refs := R } := by
  cases hp with
  | lookup path r fs hrun =>
    obtain ⟨hr, hk⟩ := wp_ok (namei_refs h.sound h.refs_self (h.task (Or.inl rfl))
      (h.task (Or.inr rfl)) path) hrun
    rw [List.append_nil] at hr
    refine h.more hr fun i hi => ?_
    exact (hk i (Option.mem_toList.mp hi)).1
  | get dir nr j fs hdir hrun =>
    have hdlt := h.refs dir hdir
    obtain ⟨⟨hr, hj⟩, -⟩ := wp_ok (iget_refs h.sound h.refs_self (h.known dir hdlt (h.used hdir))) hrun
    refine h.more (X := [j]) hr fun i hi => ?_
    rw [List.mem_singleton.mp hi]
    exact hj
  | put j fs hj hkeep hrun =>
    have hjlt := h.refs j hj
    have hused := h.used hj
    have hpos := List.count_pos_iff.mpr hj
    -- the state is that with a reference less, and the one that is put
    have hbase : Refs (less m.fs j) [j] m.fs := by
      refine ⟨rfl, ⟨rfl, rfl⟩, fun i _ => count_less hused,
        fun i _ _ => ⟨(keyOf_less m.fs j i).symm, rfl⟩, ?_, h.idle, h.clean, h.known⟩
      intro i hi hz
      have hcount := count_less (s := m.fs) (j := i) hused
      by_contra hmount
      obtain ⟨p, hp, -, himount⟩ := (h.flag i hi).mp (by simpa using hmount)
      have hm := mountsOn_pos hp himount
      have hinv := h.count i hi
      have hle : [j].count i ≤ m.refs.count i := by
        by_cases hij : j = i
        · rw [← hij, List.count_singleton_self]
          exact hpos
        · rw [List.count_cons_of_ne hij]
          exact Nat.zero_le _
      omega
    obtain ⟨hr, -⟩ := wp_ok (iput_refs hbase hjlt) hrun
    refine h.after (R := m.refs.erase j) (X := []) hr rfl ?_
      (fun i _ _ => ⟨keyOf_less m.fs j i, rfl⟩) ⟨rfl, rfl⟩ hkeep ?_
    · intro i hi
      have hcount := count_less (s := m.fs) (j := i) hused
      have hinv := h.count i hi
      rw [List.count_erase]
      by_cases hij : i = j
      · subst hij
        rw [List.count_singleton_self] at hcount
        rw [if_pos (beq_self_eq_true i)]
        omega
      · rw [List.count_cons_of_ne (Ne.symm hij), List.count_nil] at hcount
        rw [if_neg (by simpa using Ne.symm hij)]
        omega
    · exact fun i hi => h.refs i (List.mem_of_mem_erase hi)
  | dup j fs hj hrun =>
    have hjlt := h.refs j hj
    obtain ⟨hr, -⟩ := wp_ok (addCount_refs h.refs_self hjlt (h.known j hjlt (h.used hj))) hrun
    refine h.more (X := [j]) hr fun i hi => ?_
    rw [List.mem_singleton.mp hi]
    exact hjlt
  | create dir nr e d fs hdir hdev hrun =>
    have hdlt := h.refs dir hdir
    have hu := wp_ok (getEmptyInode_refs h.refs_self) hrun
    have hknown := h.known dir hdlt (h.used hdir) hdev
    refine h.more (X := [e]) ?_ fun i hi => ?_
    · refine hu.refs.update hu.lt ⟨rfl, rfl, rfl⟩ (fun j hj => ⟨slot_setSlot_of_ne hj _, rfl⟩)
        (fun hused => absurd hu.free hused) (hu.refs.loose e hu.lt) ?_ ?_ ?_ ?_ fun _ _ => rfl
      · rw [slot_setSlot]
        exact fun h0 => absurd h0 hdev
      · rw [slot_setSlot]
        exact fun hz => by cases hz
      · rw [slot_setSlot]
        intro _ _
        rw [hu.refs.getSuper]
        exact hknown
      · rw [slot_setSlot, hu.free, List.count_singleton_self]
    · rw [List.mem_singleton.mp hi]
      exact hu.lt
  | change j d dirt hj hdev =>
    have hjlt := h.refs j hj
    have hused := h.used hj
    refine h.more (X := []) ?_ fun i hi => by cases hi
    exact h.refs_self.setSlot hjlt rfl rfl (fun h0 => absurd h0 hdev) (fun hz => absurd hz hused)
      (h.known j hjlt) rfl fun _ _ => rfl
  | sync fs hrun =>
    obtain ⟨hr, -⟩ := wp_ok (syncInodes_refs h.refs_self) hrun
    exact h.more (X := []) hr fun i hi => by cases hi
  | world w =>
    refine h.more (X := []) ?_ fun i hi => by cases hi
    have hr := h.refs_self
    exact ⟨rfl, ⟨rfl, rfl⟩, hr.count, hr.pinned, hr.loose, hr.idle, hr.clean, hr.known⟩
  | move root pwd hmove =>
    exact ⟨h.count, h.idle, h.clean, h.known, h.flag, h.super, h.inUse, h.devs, h.ons, h.isup,
      h.root, hmove, h.refs⟩

/-! ## Super blocks -/

/-- `Quiet`, for the calls, which store nothing outside of the super block either. -/
def Calm (e : Stop) (_ : State) : Prop := e ≠ .fs .writeNoDevice ∧ e ≠ .outside ∧ e ≠ .null

/-- What the code gives, and that it gave it. -/
theorem onFs_run {α : Type} {x : PM α} {Q : α → Path.State → Prop} {Q' : α → State → Prop}
    (h : wp x Q Quiet m.fs)
    (hQ : ∀ a fs, x m.fs = .ok a fs → Q a fs → Q' a { m with fs := fs }) :
    wp (onFs x) Q' Calm m := by
  unfold wp at h
  unfold wp onFs
  cases hx : x m.fs with
  | ok a fs =>
    rw [hx] at h
    exact hQ a fs hx h
  | error e fs =>
    rw [hx] at h
    exact ⟨fun he => h (Stop.fs.inj he), by simp, by simp⟩

theorem onFs_spec {α : Type} {x : PM α} {Q : α → Path.State → Prop} {Q' : α → State → Prop}
    (h : wp x Q Quiet m.fs) (hQ : ∀ a fs, Q a fs → Q' a { m with fs := fs }) :
    wp (onFs x) Q' Calm m :=
  onFs_run h fun a fs _ ha => hQ a fs ha

/-- The counts of buffers with one reference more for each of the blocks. -/
def addRefs (b : Nat → Nat → Nat) (dev : Nat) (blocks : List Nat) : Nat → Nat → Nat :=
  fun d k => b d k + if d = dev then blocks.count k else 0

theorem addRefs_nil (b : Nat → Nat → Nat) (dev : Nat) : addRefs b dev [] = b := by
  funext d k
  unfold addRefs
  rw [List.count_nil, ite_self]
  rfl

theorem addRefs_append (b : Nat → Nat → Nat) (dev : Nat) (l l' : List Nat) :
    addRefs (addRefs b dev l) dev l' = addRefs b dev (l ++ l') := by
  funext d k
  unfold addRefs
  rw [List.count_append]
  split <;> omega

theorem addRefs_cancel {b b' : Nat → Nat → Nat} {dev : Nat} {l : List Nat}
    (h : addRefs b dev l = addRefs b' dev l) : b = b' := by
  funext d k
  have hdk := congrFun (congrFun h d) k
  unfold addRefs at hdk
  omega

theorem count_add (m : State) (dev block : Nat) :
    m.count dev block (m.bcount dev block + 1) =
      { m with bcount := addRefs m.bcount dev [block] } := by
  unfold State.count
  congr 1
  funext d k
  unfold addRefs
  by_cases hd : d = dev
  · subst hd
    rw [Function.update_self, if_pos rfl]
    by_cases hk : k = block
    · rw [hk, Function.update_self, List.count_singleton_self]
    · rw [Function.update_of_ne hk, List.count_cons_of_ne (Ne.symm hk)]
      rfl
  · rw [Function.update_of_ne hd, if_neg hd]
    rfl

theorem brelse_spec (dev block : Nat) :
    wp (brelse dev block) (fun _ m' => ∃ b, m' = { m with bcount := b } ∧
      addRefs b dev [block] = m.bcount) Calm m := by
  unfold brelse
  rw [wp_bind, wp_get, wp_ite]
  refine ⟨fun _ => ?_, fun h0 => ?_⟩
  · rw [wp_throw]
    exact ⟨by simp, by simp, by simp⟩
  rw [wp_set]
  refine ⟨_, rfl, ?_⟩
  have hback := count_add (m.count dev block (m.bcount dev block - 1)) dev block
  have hb := congrArg State.bcount hback
  refine Eq.trans hb.symm ?_
  unfold State.count
  dsimp only
  rw [Function.update_self, Function.update_self, Function.update_idem, Function.update_idem,
    Nat.sub_add_cancel (Nat.one_le_iff_ne_zero.mpr h0), Function.update_eq_self,
    Function.update_eq_self]

theorem brelseAll_spec (dev : Nat) (l : List Nat) :
    wp (brelseAll dev l) (fun _ m' => ∃ b, m' = { m with bcount := b } ∧
      addRefs b dev l = m.bcount) Calm m := by
  induction l generalizing m with
  | nil => exact ⟨m.bcount, rfl, addRefs_nil m.bcount dev⟩
  | cons block l ih =>
    unfold brelseAll
    rw [wp_bind]
    refine wp_mono (brelse_spec dev block) ?_ fun _ _ he => he
    rintro _ m₁ ⟨b₁, rfl, hb₁⟩
    refine wp_mono ih ?_ fun _ _ he => he
    rintro _ m₂ ⟨b₂, rfl, hb₂⟩
    refine ⟨b₂, rfl, ?_⟩
    rw [← hb₁, ← show addRefs b₂ dev l = b₁ from hb₂, addRefs_append]
    funext d k
    unfold addRefs
    rw [List.count_append, List.count_cons, List.count_cons, List.count_nil]
    split <;> omega

theorem entries_none : entries (fun _ => none) = [] :=
  List.filterMap_eq_nil_iff.mpr fun _ _ => rfl

/-- A block is stored where there was none. -/
theorem addRefs_entries {f : Nat → Option Nat} {i : Nat} (hi : i < 2 * mapSlots) (hnone : f i = none)
    (b : Nat → Nat → Nat) (dev block : Nat) :
    addRefs (addRefs b dev (entries f)) dev [block] =
      addRefs b dev (entries (Function.update f i (some block))) := by
  rw [addRefs_append]
  funext d k
  unfold addRefs entries
  rw [List.count_append, count_filterMap_range, count_filterMap_range]
  have hup : refs (Finset.range (2 * mapSlots)) (Function.update f i (some block)) k +
      (if f i = some k then 1 else 0) =
        refs (Finset.range (2 * mapSlots)) f k + (if some block = some k then 1 else 0) :=
    refs_update (Finset.mem_range.mpr hi) (some block) k
  rw [hnone, if_neg (show ¬ (none : Option Nat) = some k by simp)] at hup
  rw [List.count_singleton]
  simp only [Option.some.injEq] at hup
  simp only [beq_iff_eq]
  split
  · omega
  · rfl

/-- What a loop over a map leaves: the entries `f`, of which those from `n` on are
empty, and `k` blocks read of the `rounds` there may be. -/
structure MapRead (m : State) (b : Nat → Nat → Nat) (p dev rounds i block n last : Nat) (m' : State) :
    Prop where
  maps  : ∃ f, m' = { m with
      maps := Function.update m.maps p f
      bcount := addRefs b dev (entries f) } ∧ (∀ j, j < i → f j = m.maps p j) ∧
    (∀ j, n ≤ j → f j = none) ∧ (last ≠ block → f i ≠ none)
  count : ∃ k, last = block + k ∧ k ≤ rounds ∧ (∀ j, j < k → m.reads dev (block + j) = true) ∧
    (k = rounds ∨ m.reads dev (block + k) = false)

theorem readMap_spec {b : Nat → Nat → Nat} {p dev n : Nat} (hn : n ≤ 2 * mapSlots) {rounds i block : Nat}
    (hfit : i + rounds ≤ n ∨ ∃ j, i + j < n ∧ m.reads dev (block + j) = false)
    (hnone : ∀ j, i ≤ j → m.maps p j = none) (hheld : m.bcount = addRefs b dev (entries (m.maps p))) :
    wp (readMap p dev rounds i block) (MapRead m b p dev rounds i block n) Calm m := by
  have hself : m = { m with
      maps := Function.update m.maps p (m.maps p)
      bcount := addRefs b dev (entries (m.maps p)) } := by
    rw [Function.update_eq_self, ← hheld]
  induction rounds generalizing m i block with
  | zero =>
    have hin : i ≤ n := by
      rcases hfit with h | ⟨j, h, -⟩
      · exact h
      · omega
    refine ⟨⟨m.maps p, hself, fun _ _ => rfl, fun j hj => hnone j (by omega), fun h => absurd rfl h⟩,
      0, rfl, Nat.le_refl 0, fun j hj => absurd hj (Nat.not_lt_zero j), Or.inl rfl⟩
  | succ rounds ih =>
    have hin : i < n := by
      rcases hfit with h | ⟨j, h, -⟩
      · omega
      · omega
    unfold readMap bread storeMap
    rw [wp_bind, wp_bind, wp_get, wp_ite]
    refine ⟨fun hread => ?_, fun hread => ?_⟩
    · rw [wp_bind, wp_set, wp_pure, if_pos rfl, wp_bind, if_neg (by omega), wp_modify, count_add]
      refine wp_mono (ih ?_ ?_ ?_ ?_) ?_ fun _ _ he => he
      · rcases hfit with h | ⟨j, h, hj⟩
        · exact Or.inl (by omega)
        · cases j with
          | zero => exact absurd hread (by rw [show m.reads dev block = false from hj]; decide)
          | succ j => exact Or.inr ⟨j, by omega, by rw [show block + 1 + j = block + (j + 1) by omega]; exact hj⟩
      · intro j hj
        show Function.update m.maps p _ p j = none
        rw [Function.update_self, Function.update_of_ne (by omega)]
        exact hnone j (by omega)
      · show addRefs m.bcount dev [block] = addRefs b dev (entries (Function.update m.maps p _ p))
        rw [Function.update_self, hheld]
        exact addRefs_entries (by omega) (hnone i (Nat.le_refl i)) b dev block
      · dsimp only
        rw [Function.update_eq_self]
        congr 1
        rw [Function.update_self, hheld]
        exact addRefs_entries (by omega) (hnone i (Nat.le_refl i)) b dev block
      · rintro last m' ⟨⟨f, rfl, hbelow, habove, -⟩, k, rfl, hk, hall, hend⟩
        dsimp only at hbelow hall hend
        have hfi : f i = some block := by
          rw [hbelow i (by omega), Function.update_self, Function.update_self]
        refine ⟨⟨f, ?_, ?_, habove, fun _ => by rw [hfi]; simp⟩, k + 1, by omega, by omega, ?_, ?_⟩
        · dsimp only
          rw [Function.update_idem]
        · intro j hj
          rw [hbelow j (by omega), Function.update_self, Function.update_of_ne (by omega)]
        · intro j hj
          cases j with
          | zero => exact hread
          | succ j =>
            rw [show block + (j + 1) = block + 1 + j by omega]
            exact hall j (by omega)
        · rw [show block + (k + 1) = block + 1 + k by omega]
          exact hend.imp_left fun h => by omega
    · rw [wp_pure, if_neg (by decide), wp_bind, if_neg (by omega), wp_modify, wp_pure]
      have hsame : Function.update (m.maps p) i none = m.maps p := by
        rw [← hnone i (Nat.le_refl i), Function.update_eq_self]
      rw [hsame, Function.update_eq_self]
      refine ⟨⟨m.maps p, hself, fun _ _ => rfl, fun j hj => hnone j (by omega), fun h => absurd rfl h⟩,
        0, rfl, Nat.zero_le _, fun j hj => absurd hj (Nat.not_lt_zero j), Or.inr ?_⟩
      simpa using hread

theorem setSuper_back {p : Nat} (dev : Nat) (hfree : m.fs.super p = ⟨0, none⟩) :
    (m.setSuper p ⟨dev, none⟩).setSuper p ⟨0, none⟩ = m := by
  unfold State.setSuper
  dsimp only
  rw [Function.update_idem, ← hfree, Function.update_eq_self]

/-- `read_super` fails, or the device is there, or it gets a super block that was free
and holds the blocks of its maps. -/
inductive ReadSuper (m : State) (dev : Nat) : Option Nat → State → Prop
  | failed (isup : Nat → Option Nat) (maps : Nat → Nat → Option Nat)
      (hisup : ∀ q, isup q = m.isup q ∨ isup q = none) :
      ReadSuper m dev none { m with isup := isup, maps := maps }
  | found (p : Nat) (h : m.fs.getSuper dev = some p) : ReadSuper m dev (some p) m
  | fresh (p : Nat) (maps : Nat → Nat → Option Nat) (h0 : dev ≠ 0) (hnew : m.fs.getSuper dev = none)
      (hp : p < nrSuper) (hfree : m.fs.super p = ⟨0, none⟩) :
      ReadSuper m dev (some p)
        { m.setSuper p ⟨dev, none⟩ with
          isup := Function.update m.isup p none
          maps := maps
          bcount := addRefs m.bcount dev (entries (maps p)) }

/-- The two loops, on a super block that was free: the maps are read, or every buffer is
released. -/
theorem readMaps_spec {p dev : Nat} (hfits : m.Fits dev) (h1 : m.reads dev 1 = true)
    (hmagic : (m.dsuper dev).magic = true) {Q : Option Nat → State → Prop}
    (hfail : ∀ maps, Q none (({ m with maps := maps } : State).setSuper p ⟨0, none⟩))
    (hdone : ∀ maps, Q (some p)
      { m with maps := maps, bcount := addRefs m.bcount dev (entries (maps p)) }) :
    wp (do
        modify fun m => { m with maps := Function.update m.maps p fun _ => none }
        let block ← readMap p dev (m.dsuper dev).imapBlocks 0 2
        let block ← readMap p dev (m.dsuper dev).zmapBlocks mapSlots block
        let maps := (← get).maps p
        if block ≠ 2 + (m.dsuper dev).imapBlocks + (m.dsuper dev).zmapBlocks then do
          brelseAll dev (entries maps)
          modify fun m => m.setSuper p ⟨0, none⟩
          return none
        else if maps 0 = none ∨ maps mapSlots = none then throw .null
        else return some p) Q Calm m := by
  obtain ⟨himap, hzmap⟩ := hfits h1 hmagic
  rw [wp_bind, wp_modify, wp_bind]
  refine wp_mono (readMap_spec (b := m.bcount) (n := mapSlots) (by decide) ?_ ?_ ?_) ?_
    fun _ _ he => he
  · rw [Nat.zero_add]
    exact himap.imp_right fun ⟨j, hj, hr⟩ => ⟨j, by omega, hr⟩
  · intro j _
    show Function.update m.maps p _ p j = none
    rw [Function.update_self]
  · show m.bcount = addRefs m.bcount dev (entries (Function.update m.maps p _ p))
    rw [Function.update_self, entries_none, addRefs_nil]
  rintro last m₁ ⟨⟨f, rfl, -, habove, hfirst⟩, k, rfl, hk, hall, hend⟩
  dsimp only at hall hend ⊢
  rw [Function.update_idem, wp_bind]
  refine wp_mono (readMap_spec (b := m.bcount) (n := 2 * mapSlots) (Nat.le_refl _) ?_ ?_ ?_) ?_
    fun _ _ he => he
  · rcases hend with rfl | hend
    · rcases (hzmap hall).1 with h | ⟨j, hj, hr⟩
      · exact Or.inl (by omega)
      · exact Or.inr ⟨j, by omega, hr⟩
    · -- the block that could not be read is the first one of the second loop
      exact Or.inr ⟨0, by decide, hend⟩
  · intro j hj
    show Function.update m.maps p f p j = none
    rw [Function.update_self]
    exact habove j hj
  · show _ = addRefs m.bcount dev (entries (Function.update m.maps p f p))
    rw [Function.update_self]
  rintro last m₂ ⟨⟨g, rfl, hbelow, -, hfirst'⟩, l, rfl, hl, hall', hend'⟩
  dsimp only at hall' hend' ⊢
  rw [Function.update_idem, wp_bind, wp_get]
  simp only [Function.update_self]
  rw [wp_ite]
  refine ⟨fun _ => ?_, fun hlast => ?_⟩
  · rw [wp_bind]
    refine wp_mono (brelseAll_spec dev (entries g)) ?_ fun _ _ he => he
    rintro _ m₃ ⟨b, rfl, hb⟩
    replace hb : b = m.bcount := addRefs_cancel hb
    subst hb
    rw [wp_bind, wp_modify, wp_pure]
    exact hfail (Function.update m.maps p g)
  · have hk' : k = (m.dsuper dev).imapBlocks := by omega
    have hl' : l = (m.dsuper dev).zmapBlocks := by omega
    subst hk' hl'
    obtain ⟨hi, hz⟩ := (hzmap hall).2 hall'
    have hg0 : g 0 ≠ none := by
      have h0 : g 0 = Function.update m.maps p f p 0 := hbelow 0 (by decide)
      rw [Function.update_self] at h0
      rw [h0]
      exact hfirst (by omega)
    rw [if_neg (not_or.mpr ⟨hg0, hfirst' (by omega)⟩), wp_pure]
    have hend := hdone (Function.update m.maps p g)
    rw [Function.update_self] at hend
    exact hend

theorem readSuper_spec (hnone : ∀ p, p < nrSuper → (m.fs.super p).dev = 0 →
    (m.fs.super p).imount = none) {dev : Nat} (hfits : m.Fits dev) :
    wp (readSuper dev) (ReadSuper m dev) Calm m := by
  have hisup : ∀ p q, Function.update m.isup p none q = m.isup q ∨
      Function.update m.isup p none q = none := by
    intro p q
    by_cases hq : q = p
    · rw [hq, Function.update_self]
      exact Or.inr rfl
    · rw [Function.update_of_ne hq]
      exact Or.inl rfl
  unfold readSuper
  rw [wp_bind, wp_get, wp_ite]
  refine ⟨fun _ => ReadSuper.failed m.isup m.maps fun _ => Or.inl rfl, fun h0 => ?_⟩
  cases hget : m.fs.getSuper dev with
  | some p => exact ReadSuper.found p hget
  | none =>
    dsimp only
    cases hfind : (List.range nrSuper).find? fun p => (m.fs.super p).dev == 0 with
    | none => exact ReadSuper.failed m.isup m.maps fun _ => Or.inl rfl
    | some p =>
      have hp : p < nrSuper := List.mem_range.mp (List.mem_of_find?_eq_some hfind)
      have hdev : (m.fs.super p).dev = 0 := by simpa using List.find?_some hfind
      have hfree : m.fs.super p = ⟨0, none⟩ := by
        have hi := hnone p hp hdev
        cases hs : m.fs.super p with
        | mk d i =>
          rw [hs] at hdev hi
          rw [← hdev, ← hi]
      -- a failure gives the super block back
      have hback : ∀ maps, ReadSuper m dev none
          (({ m.setSuper p ⟨dev, none⟩ with
            isup := Function.update m.isup p none
            maps := maps } : State).setSuper p ⟨0, none⟩) := by
        intro maps
        have heq : ({ m.setSuper p ⟨dev, none⟩ with
            isup := Function.update m.isup p none
            maps := maps } : State).setSuper p ⟨0, none⟩ =
            { m with isup := Function.update m.isup p none, maps := maps } := by
          have h := setSuper_back dev hfree
          unfold State.setSuper at h ⊢
          dsimp only at h ⊢
          rw [State.mk.injEq] at h
          rw [h.1]
        rw [heq]
        exact ReadSuper.failed _ maps (hisup p)
      dsimp only
      unfold bread
      rw [wp_bind, wp_set, wp_bind, wp_bind, wp_get, wp_ite]
      refine ⟨fun h1 => ?_, fun _ => ?_⟩
      · rw [wp_bind, wp_set, wp_pure, if_pos rfl, wp_bind, count_add]
        refine wp_mono (brelse_spec dev 1) ?_ fun _ _ he => he
        rintro _ m₁ ⟨b, rfl, hb⟩
        replace hb : b = m.bcount := addRefs_cancel hb
        subst hb
        rw [wp_ite]
        refine ⟨fun hmagic => ?_, fun _ => by rw [wp_bind, wp_modify, wp_pure]; exact hback m.maps⟩
        refine readMaps_spec (m := { m.setSuper p ⟨dev, none⟩ with
          isup := Function.update m.isup p none }) hfits h1 hmagic hback ?_
        exact fun maps => ReadSuper.fresh p maps h0 hget hp hfree
      · rw [wp_pure, if_neg (by decide), wp_bind, wp_modify, wp_pure]
        exact hback m.maps

/-! ## Mount -/

/-- A call that has failed: nothing is referred to, and nothing mounted, that was not. -/
inductive Failed (m : State) : State → Prop
  | mk (fs : Path.State) (isup : Nat → Option Nat) (maps : Nat → Nat → Option Nat)
      (h : Refs m.fs [] fs) (hisup : ∀ p, isup p = m.isup p ∨ isup p = none) :
      Failed m { m with fs := fs, isup := isup, maps := maps }

theorem Failed.inv (h : Inv m) (hf : Failed m m') : Inv m' := by
  cases hf with
  | mk fs isup maps hr hisup =>
    have hb := h.more (X := []) hr fun i hi => by cases hi
    refine ⟨hb.count, hb.idle, hb.clean, hb.known, hb.flag, hb.super, hb.inUse, hb.devs, hb.ons, ?_,
      hb.root, hb.tasks, hb.refs⟩
    intro p hp hdev
    rcases hisup p with heq | heq
    · exact heq.trans (hb.isup p hp hdev)
    · exact heq

/-- `sys_mount` has mounted a device on a slot. -/
structure Mounted (m : State) (dev dir : Nat) (m' : State) : Prop where
  fresh  : dev ≠ 0 ∧ m.fs.getSuper dev = none
  slot   : dir < nrInode ∧ (m.fs.slot dir).count = 0
  super  : ∃ p, p < nrSuper ∧ m.fs.super p = ⟨0, none⟩ ∧
    m'.fs.super = Function.update m.fs.super p ⟨dev, some dir⟩ ∧
    m'.bcount = addRefs m.bcount dev (entries (m'.maps p))
  count  : ∀ i, i < nrInode → (m'.fs.slot i).count = (m.fs.slot i).count + [dir].count i
  keys   : ∀ i, i < nrInode → (m.fs.slot i).count ≠ 0 → m'.fs.keyOf i = m.fs.keyOf i
  rest   : m'.rootDev = m.rootDev ∧ m'.refs = m.refs
  inv    : Inv m'

/-- The super block and the slot at the end of `sys_mount`. -/
def cover (fs : Path.State) (dev p dir : Nat) : Path.State :=
  { (fs.setSlot dir { fs.slot dir with dirt := true }) with
    super := Function.update fs.super p ⟨dev, some dir⟩
    mount := Function.update fs.mount dir true }

theorem slot_cover (fs : Path.State) (dev p dir i : Nat) :
    ((cover fs dev p dir).slot i).count = (fs.slot i).count ∧
      ((cover fs dev p dir).slot i).dev = (fs.slot i).dev ∧
      ((cover fs dev p dir).slot i).num = (fs.slot i).num ∧
      (i ≠ dir → ((cover fs dev p dir).slot i).dirt = (fs.slot i).dirt) := by
  by_cases hi : i = dir
  · subst hi
    rw [show (cover fs dev p i).slot i = { fs.slot i with dirt := true } from slot_setSlot fs i _]
    exact ⟨rfl, rfl, rfl, fun hne => absurd rfl hne⟩
  · rw [show (cover fs dev p dir).slot i = fs.slot i from slot_setSlot_of_ne hi _]
    exact ⟨rfl, rfl, rfl, fun _ => rfl⟩

theorem keyOf_cover {fs : Path.State} {dev p dir : Nat} (i : Nat) :
    (cover fs dev p dir).keyOf i = fs.keyOf i := by
  obtain ⟨-, hdev, hnum, -⟩ := slot_cover fs dev p dir i
  unfold State.keyOf
  rw [hdev, hnum]

theorem getSuper_iff {dev : Nat} :
    s.getSuper dev ≠ none ↔ dev ≠ 0 ∧ ∃ p, p < nrSuper ∧ (s.super p).dev = dev := by
  constructor
  · intro h
    obtain ⟨h0, p, hp, hdev, -⟩ := dev_of_super h
    exact ⟨h0, p, hp, hdev⟩
  · rintro ⟨h0, p, hp, rfl⟩
    exact getSuper_of_dev hp h0

/-- A directory that was not in use is covered by a super block that was free. -/
theorem cover_inv (h : Inv m) {fs : Path.State} {dev p dir : Nat}
    {maps : Nat → Nat → Option Nat} {bcount : Nat → Nat → Nat} (hr : Refs m.fs [dir] fs) (hdir : dir < nrInode)
    (hfree : (m.fs.slot dir).count = 0) (hdev : (fs.slot dir).dev ≠ 0)
    (hnum : (fs.slot dir).num ≠ rootIno) (h0 : dev ≠ 0) (hnew : m.fs.getSuper dev = none)
    (hp : p < nrSuper) (hsuper : m.fs.super p = ⟨0, none⟩) :
    Inv { m with
      fs := cover fs dev p dir
      isup := Function.update m.isup p none
      maps := maps
      bcount := bcount } := by
  have hself : (cover fs dev p dir).super p = ⟨dev, some dir⟩ := Function.update_self ..
  have hother : ∀ q, q ≠ p → (cover fs dev p dir).super q = m.fs.super q := by
    intro q hq
    rw [← hr.super]
    exact Function.update_of_ne hq ..
  -- no other super block is of the device, or covers the directory
  have hdevs : ∀ q, q < nrSuper → (m.fs.super q).dev ≠ dev := fun q hq heq =>
    getSuper_iff.mpr ⟨h0, q, hq, heq⟩ hnew
  have hons : ∀ q, q < nrSuper → (m.fs.super q).imount ≠ some dir := fun q hq heq =>
    h.covered hq heq hfree
  have hsupers : ∀ d, m.fs.getSuper d ≠ none → (cover fs dev p dir).getSuper d ≠ none := by
    intro d hd
    obtain ⟨hd0, q, hq, rfl⟩ := getSuper_iff.mp hd
    refine getSuper_iff.mpr ⟨hd0, q, hq, ?_⟩
    by_cases hqp : q = p
    · rw [hqp, hsuper] at hd0
      exact absurd rfl hd0
    · rw [hother q hqp]
  have hroot : dev ≠ m.rootDev := by
    rintro rfl
    exact h.root hnew
  have hsuper' : (cover fs dev p dir).super = Function.update m.fs.super p ⟨dev, some dir⟩ := by
    rw [← hr.super]
    rfl
  have hapart : Apart (cover fs dev p dir).super := by
    rw [hsuper']
    refine h.apart.update (fun _ => Option.some_ne_none dir) (fun q hq _ _ => hdevs q hq) ?_
    intro q i hq _ hi
    rw [← hi]
    exact hons q hq
  refine ⟨?_, ?_, ?_, ?_, ?_, ?_, hapart.inUse, hapart.devs, hapart.ons, hsuper' ▸ h.isup_update,
    hsupers _ h.root, ?_, h.refs⟩
  · intro i hi
    have hm := mountsOn_update m.fs.super hp ⟨dev, some dir⟩ i
    rw [hsuper, if_neg (by simp)] at hm
    show ((cover fs dev p dir).slot i).count =
      m.refs.count i + mountsOn (Function.update fs.super p ⟨dev, some dir⟩) i
    rw [(slot_cover fs dev p dir i).1, hr.count i hi, h.count i hi, hr.super]
    by_cases hid : i = dir
    · subst hid
      rw [if_pos rfl] at hm
      rw [List.count_singleton_self]
      omega
    · rw [if_neg (by simpa using Ne.symm hid)] at hm
      rw [List.count_cons_of_ne (Ne.symm hid), List.count_nil]
      omega
  · intro i hi hz
    replace hz : ((cover fs dev p dir).slot i).dev = 0 := hz
    obtain ⟨-, hdev', -, hdirt⟩ := slot_cover fs dev p dir i
    rw [hdev'] at hz
    have hne : i ≠ dir := by
      rintro rfl
      exact hdev hz
    exact (hdirt hne).trans (hr.idle i hi hz)
  · intro i hi hz
    replace hz : ((cover fs dev p dir).slot i).count = 0 := hz
    obtain ⟨hcount, -, -, hdirt⟩ := slot_cover fs dev p dir i
    rw [hcount] at hz
    have hne : i ≠ dir := by
      rintro rfl
      exact hr.used hdir hz
    exact (hdirt hne).trans (hr.clean i hi hz)
  · intro i hi hz hd
    obtain ⟨hcount, hdev', -, -⟩ := slot_cover fs dev p dir i
    show (cover fs dev p dir).getSuper ((cover fs dev p dir).slot i).dev ≠ none
    replace hz : ((cover fs dev p dir).slot i).count ≠ 0 := hz
    replace hd : ((cover fs dev p dir).slot i).dev ≠ 0 := hd
    rw [hcount] at hz
    rw [hdev'] at hd ⊢
    refine hsupers _ ?_
    rw [← hr.getSuper]
    exact hr.known i hi hz hd
  · intro i hi
    show (cover fs dev p dir).mount i = true ↔ ∃ q, q < nrSuper ∧
      ((cover fs dev p dir).super q).dev ≠ m.rootDev ∧ ((cover fs dev p dir).super q).imount = some i
    by_cases hid : i = dir
    · subst hid
      refine ⟨fun _ => ⟨p, hp, ?_, ?_⟩, fun _ => Function.update_self ..⟩
      · rw [hself]
        exact hroot
      · rw [hself]
    · have hmount : (cover fs dev p dir).mount i = m.fs.mount i := by
        rw [show (cover fs dev p dir).mount i = fs.mount i from Function.update_of_ne hid ..]
        by_cases hz : (m.fs.slot i).count = 0
        · rw [hr.loose i hi hz, h.loose hi hz]
        · exact (hr.pinned i hi hz).2
      rw [hmount, h.flag i hi]
      refine exists_congr fun q => and_congr_right fun hq => ?_
      by_cases hqp : q = p
      · subst hqp
        rw [hself, hsuper]
        simp [Ne.symm hid]
      · rw [hother q hqp]
  · intro q i hq himount
    show i < nrInode ∧ ((cover fs dev p dir).super q).dev ≠ 0 ∧
      (((cover fs dev p dir).super q).dev ≠ m.rootDev → ((cover fs dev p dir).slot i).num ≠ rootIno)
    replace himount : ((cover fs dev p dir).super q).imount = some i := himount
    rw [(slot_cover fs dev p dir i).2.2.1]
    by_cases hqp : q = p
    · subst hqp
      rw [hself] at himount ⊢
      obtain rfl := Option.some.inj himount
      exact ⟨hdir, h0, fun _ => hnum⟩
    · rw [hother q hqp] at himount ⊢
      obtain ⟨hi, hq0, hroot'⟩ := h.super q i hq himount
      rw [keyOf_num (hr.pinned i hi (h.covered hq himount)).1]
      exact ⟨hi, hq0, hroot'⟩
  · intro k hk
    replace hk : k = m.fs.root ∨ k = m.fs.pwd := by
      rw [← hr.task.1, ← hr.task.2]
      exact hk
    obtain ⟨hmem, hd⟩ := h.tasks k hk
    refine ⟨hmem, ?_⟩
    show ((cover fs dev p dir).slot k).dev ≠ 0
    rw [(slot_cover fs dev p dir k).2.1, keyOf_dev (hr.pinned k (h.refs k hmem) (h.used hmem)).1]
    exact hd

/-- How `sys_mount` ends. -/
def MountEnd (m : State) (r : Int) (m' : State) : Prop :=
  (r ≠ 0 ∧ Failed m m') ∨ (r = 0 ∧ ∃ dev dir, Mounted m dev dir m')

theorem putAndReturn_spec {fs : Path.State} {isup : Nat → Option Nat}
    {maps : Nat → Nat → Option Nat} {r : Int}
    (hr : Refs m.fs [k] fs) (hk : k < nrInode) (h0 : r ≠ 0)
    (hisup : ∀ p, isup p = m.isup p ∨ isup p = none) :
    wp (putAndReturn k r) (MountEnd m) Calm { m with fs := fs, isup := isup, maps := maps } := by
  unfold putAndReturn
  rw [wp_bind]
  refine onFs_spec (iput_refs hr hk) ?_
  rintro _ fs' ⟨hr', -⟩
  exact Or.inl ⟨h0, Failed.mk fs' isup maps hr' hisup⟩

theorem mountOn_spec (h : Inv m) {fs : Path.State} {dev dir : Nat} (hr : Refs m.fs [dir] fs)
    (hdir : dir < nrInode) (hdev : (fs.slot dir).dev ≠ 0) (hfits : m.Fits dev) :
    wp (mountOn dev dir) (MountEnd m) Calm { m with fs := fs } := by
  have hput : ∀ (r : Int) (isup : Nat → Option Nat) (maps : Nat → Nat → Option Nat), r ≠ 0 →
      (∀ p, isup p = m.isup p ∨ isup p = none) →
      wp (putAndReturn dir r) (MountEnd m) Calm { m with fs := fs, isup := isup, maps := maps } :=
    fun r isup maps h0 hisup => putAndReturn_spec hr hdir h0 hisup
  have hself : ∀ p, m.isup p = m.isup p ∨ m.isup p = none := fun p => Or.inl rfl
  unfold mountOn
  rw [wp_bind, wp_get, wp_ite]
  refine ⟨fun _ => hput _ m.isup m.maps (by decide) hself, fun hone => ?_⟩
  obtain ⟨hcount, hnum⟩ := not_or.mp hone
  rw [wp_ite]
  refine ⟨fun _ => hput _ m.isup m.maps (by decide) hself, fun _ => ?_⟩
  have hfree : (m.fs.slot dir).count = 0 := by
    have hc := hr.count dir hdir
    rw [List.count_singleton_self] at hc
    have h1 : (fs.slot dir).count = 1 := not_not.mp hcount
    omega
  rw [wp_bind]
  refine wp_mono (readSuper_spec ?_ hfits) ?_ fun _ _ he => he
  · intro p hp hz
    replace hz : (fs.super p).dev = 0 := hz
    show (fs.super p).imount = none
    rw [hr.super] at hz ⊢
    by_contra himount
    obtain ⟨i, hi⟩ := Option.ne_none_iff_exists'.mp himount
    exact (h.super p i hp hi).2.1 hz
  intro r m₁ hread
  cases hread with
  | failed isup maps hisup => exact hput _ isup maps (by decide) hisup
  | found p hp =>
    -- a super block that is in use is mounted
    replace hp : m.fs.getSuper dev = some p := (hr.getSuper dev).symm.trans hp
    obtain ⟨h0, q, hq, hqdev, hqp⟩ := dev_of_super (s := m.fs) (by rw [hp]; exact Option.some_ne_none p)
    obtain rfl : p = q := Option.some.inj (hp.symm.trans hqp)
    have himount := h.inUse p hq (by rw [hqdev]; exact h0)
    dsimp only
    rw [wp_bind, wp_get, wp_ite]
    refine ⟨fun _ => hput _ m.isup m.maps (by decide) hself, fun hno => absurd ?_ hno⟩
    rw [hr.super]
    exact himount
  | fresh p maps h0 hnew hp hsuper =>
    replace hnew : m.fs.getSuper dev = none := (hr.getSuper dev).symm.trans hnew
    replace hsuper : m.fs.super p = ⟨0, none⟩ := by
      rw [← hr.super]
      exact hsuper
    have hmount : fs.mount dir = false := hr.loose dir hdir hfree
    dsimp only
    unfold State.setSuper
    rw [wp_bind, wp_get, wp_ite]
    refine ⟨fun hn => absurd ?_ hn, fun _ => ?_⟩
    · show (Function.update fs.super p ⟨dev, none⟩ p).imount = none
      rw [Function.update_self]
    rw [wp_ite]
    refine ⟨fun hn => absurd (hmount.symm.trans hn) (by decide), fun _ => ?_⟩
    rw [wp_bind, wp_set, wp_pure]
    dsimp only
    rw [Function.update_self, Function.update_idem]
    refine Or.inr ⟨rfl, dev, dir, ⟨h0, hnew⟩, ⟨hdir, hfree⟩, ⟨p, hp, hsuper, ?_, rfl⟩, ?_, ?_,
      ⟨rfl, rfl⟩, cover_inv h hr hdir hfree hdev hnum h0 hnew hp hsuper⟩
    · rw [← hr.super]
    · intro i hi
      show ((cover fs dev p dir).slot i).count = _
      rw [(slot_cover fs dev p dir i).1, hr.count i hi]
    · intro i hi hz
      show (cover fs dev p dir).keyOf i = _
      rw [keyOf_cover, (hr.pinned i hi hz).1]

/-! ## Umount -/

/-- `sys_umount` has taken a device off a slot. -/
structure Unmounted (m : State) (dev i : Nat) (m' : State) : Prop where
  noRoot : dev ≠ m.rootDev
  slot  : i < nrInode
  free  : ∀ j, j < nrInode → (m.fs.slot j).count ≠ 0 → (m.fs.slot j).dev ≠ dev
  super : ∃ p, p < nrSuper ∧ m.fs.super p = ⟨dev, some i⟩ ∧
    m'.fs.super = Function.update m.fs.super p ⟨0, none⟩ ∧
    addRefs m'.bcount dev (entries (m.maps p)) = m.bcount
  count : ∀ j, j < nrInode → (m.fs.slot j).count = (m'.fs.slot j).count + [i].count j
  keys  : ∀ j, j < nrInode → (m'.fs.slot j).count ≠ 0 → m'.fs.keyOf j = m.fs.keyOf j
  rest  : m'.rootDev = m.rootDev ∧ m'.refs = m.refs
  inv   : Inv m'

/-- The slot is not covered any more, and the super block does not refer to it. -/
def uncover (fs : Path.State) (i : Nat) : Path.State :=
  less { fs with mount := Function.update fs.mount i false } i

theorem count_uncover {i j : Nat} (hused : (s.slot i).count ≠ 0) :
    (s.slot j).count = ((uncover s i).slot j).count + [i].count j :=
  count_less (s := { s with mount := Function.update s.mount i false }) hused

theorem keyOf_uncover (s : Path.State) (i j : Nat) : (uncover s i).keyOf j = s.keyOf j :=
  keyOf_less _ i j

/-- The super block goes, once the slot has been put. -/
theorem uncover_inv (h : Inv m) {fs : Path.State} {dev p i : Nat} (bcount : Nat → Nat → Nat)
    (hr : Refs (uncover m.fs i) [] fs) (hp : p < nrSuper) (hsuper : m.fs.super p = ⟨dev, some i⟩)
    (hroot : dev ≠ m.rootDev)
    (hfree : ∀ j, j < nrInode → (m.fs.slot j).count ≠ 0 → (m.fs.slot j).dev ≠ dev) :
    Inv { m with
      fs := { fs with super := Function.update m.fs.super p ⟨0, none⟩ }
      isup := Function.update m.isup p none
      bcount := bcount } := by
  have himount : (m.fs.super p).imount = some i := by rw [hsuper]
  have hused := h.covered hp himount
  have hself : Function.update m.fs.super p ⟨0, none⟩ p = ⟨0, none⟩ := Function.update_self ..
  have hother : ∀ q, q ≠ p → Function.update m.fs.super p ⟨0, none⟩ q = m.fs.super q :=
    fun q hq => Function.update_of_ne hq ..
  have hons : ∀ q j, q < nrSuper → q ≠ p → (m.fs.super q).imount = some j → j ≠ i := by
    rintro q j hq hqp hqj rfl
    exact hqp (h.ons p q j hp hq himount hqj)
  have hcount : ∀ j, j < nrInode → ((uncover m.fs i).slot j).count =
      m.refs.count j + mountsOn (Function.update m.fs.super p ⟨0, none⟩) j := by
    intro j hj
    have hc := count_uncover (s := m.fs) (j := j) hused
    have hm := mountsOn_update m.fs.super hp ⟨0, none⟩ j
    have hinv := h.count j hj
    rw [himount, if_neg (show ¬ (none : Option Nat) = some j by simp)] at hm
    by_cases hij : i = j
    · subst hij
      rw [List.count_singleton_self] at hc
      rw [if_pos rfl] at hm
      omega
    · rw [List.count_cons_of_ne hij, List.count_nil] at hc
      rw [if_neg (by simpa using hij)] at hm
      omega
  have hkey : ∀ j, j < nrInode → ((uncover m.fs i).slot j).count ≠ 0 →
      fs.keyOf j = m.fs.keyOf j := fun j hj hz =>
    (hr.pinned j hj hz).1.trans (keyOf_uncover m.fs i j)
  have hkept : ∀ j, j < nrInode → ((uncover m.fs i).slot j).count ≠ 0 → (m.fs.slot j).count ≠ 0 := by
    intro j hj hz
    rw [count_uncover hused]
    omega
  -- what else is covered stays in use
  have hstays : ∀ q j, q < nrSuper → q ≠ p → (m.fs.super q).imount = some j →
      ((uncover m.fs i).slot j).count ≠ 0 := by
    intro q j hq hqp hqj
    rw [hcount j (h.super q j hq hqj).1]
    have hpos : 0 < mountsOn (Function.update m.fs.super p ⟨0, none⟩) j :=
      mountsOn_pos hq ((congrArg Super.imount (hother q hqp)).trans hqj)
    omega
  have hsupers : ∀ d, d ≠ dev → m.fs.getSuper d ≠ none →
      ({ fs with super := Function.update m.fs.super p ⟨0, none⟩ } : Path.State).getSuper d ≠ none := by
    intro d hd hget
    obtain ⟨hd0, q, hq, rfl⟩ := getSuper_iff.mp hget
    refine getSuper_iff.mpr ⟨hd0, q, hq, ?_⟩
    have hqp : q ≠ p := by
      rintro rfl
      exact hd (by rw [hsuper])
    exact congrArg Super.dev (hother q hqp)
  have hapart : Apart (Function.update m.fs.super p ⟨0, none⟩) :=
    h.apart.update (fun hd => absurd rfl hd) (fun _ _ _ hd => absurd rfl hd) (fun _ _ _ _ hi => by cases hi)
  refine ⟨?_, hr.idle, hr.clean, ?_, ?_, ?_, hapart.inUse, hapart.devs, hapart.ons, h.isup_update,
    hsupers _ (Ne.symm hroot) h.root, ?_, h.refs⟩
  · intro j hj
    show (fs.slot j).count = _
    rw [hr.count j hj, List.count_nil, Nat.add_zero]
    exact hcount j hj
  · intro j hj hz hd
    replace hz : (fs.slot j).count ≠ 0 := hz
    rw [hr.count j hj, List.count_nil, Nat.add_zero] at hz
    have hdev : (fs.slot j).dev = (m.fs.slot j).dev := congrArg Prod.fst (hkey j hj hz)
    refine hsupers _ ?_ ?_
    · show (fs.slot j).dev ≠ dev
      rw [hdev]
      exact hfree j hj (hkept j hj hz)
    · show m.fs.getSuper (fs.slot j).dev ≠ none
      rw [hdev]
      exact h.known j hj (hkept j hj hz) (by rw [← hdev]; exact hd)
  · intro j hj
    show fs.mount j = true ↔ ∃ q, q < nrSuper ∧
      (Function.update m.fs.super p ⟨0, none⟩ q).dev ≠ m.rootDev ∧
      (Function.update m.fs.super p ⟨0, none⟩ q).imount = some j
    have hrest : (∃ q, q < nrSuper ∧ (Function.update m.fs.super p ⟨0, none⟩ q).dev ≠ m.rootDev ∧
        (Function.update m.fs.super p ⟨0, none⟩ q).imount = some j) ↔
        ∃ q, q < nrSuper ∧ q ≠ p ∧ (m.fs.super q).dev ≠ m.rootDev ∧
          (m.fs.super q).imount = some j := by
      refine exists_congr fun q => and_congr_right fun hq => ?_
      by_cases hqp : q = p
      · subst hqp
        rw [hself]
        simp
      · rw [hother q hqp]
        simp [hqp]
    rw [hrest]
    by_cases hz : ((uncover m.fs i).slot j).count = 0
    · rw [hr.loose j hj hz]
      refine ⟨fun hf => (by cases hf), ?_⟩
      rintro ⟨q, hq, hqp, -, hqj⟩
      exact absurd hz (hstays q j hq hqp hqj)
    · rw [(hr.pinned j hj hz).2]
      show Function.update m.fs.mount i false j = true ↔ _
      by_cases hji : j = i
      · subst hji
        rw [Function.update_self]
        refine ⟨fun hf => (by cases hf), ?_⟩
        rintro ⟨q, hq, hqp, -, hqj⟩
        exact absurd rfl (hons q j hq hqp hqj)
      · rw [Function.update_of_ne hji, h.flag j hj]
        refine exists_congr fun q => and_congr_right fun hq => ⟨?_, ?_⟩
        · rintro ⟨hqd, hqj⟩
          refine ⟨?_, hqd, hqj⟩
          rintro rfl
          exact hji (Option.some.inj (hqj.symm.trans himount))
        · rintro ⟨-, hqd, hqj⟩
          exact ⟨hqd, hqj⟩
  · intro q j hq hqj
    replace hqj : (Function.update m.fs.super p ⟨0, none⟩ q).imount = some j := hqj
    show j < nrInode ∧ (Function.update m.fs.super p ⟨0, none⟩ q).dev ≠ 0 ∧
      ((Function.update m.fs.super p ⟨0, none⟩ q).dev ≠ m.rootDev → (fs.slot j).num ≠ rootIno)
    have hqp : q ≠ p := by
      rintro rfl
      rw [hself] at hqj
      cases hqj
    rw [hother q hqp] at hqj ⊢
    obtain ⟨hj, h0, hnum⟩ := h.super q j hq hqj
    rw [show (fs.slot j).num = (m.fs.slot j).num from
      congrArg Prod.snd (hkey j hj (hstays q j hq hqp hqj))]
    exact ⟨hj, h0, hnum⟩
  · intro k hk
    replace hk : k = m.fs.root ∨ k = m.fs.pwd := by
      rw [← show fs.root = m.fs.root from hr.task.1, ← show fs.pwd = m.fs.pwd from hr.task.2]
      exact hk
    obtain ⟨hmem, hd⟩ := h.tasks k hk
    have hpos := List.count_pos_iff.mpr hmem
    have hz : ((uncover m.fs i).slot k).count ≠ 0 := by
      rw [hcount k (h.refs k hmem)]
      omega
    refine ⟨hmem, ?_⟩
    show (fs.slot k).dev ≠ 0
    rw [show (fs.slot k).dev = (m.fs.slot k).dev from congrArg Prod.fst (hkey k (h.refs k hmem) hz)]
    exact hd

/-- How `sys_umount` ends. -/
def UmountEnd (m : State) (r : Int) (m' : State) : Prop :=
  (r ≠ 0 ∧ Failed m m') ∨ (r = 0 ∧ ∃ dev i, Unmounted m dev i m')

theorem busy_iff {dev : Nat} : m.busy dev = true ↔
    ∃ j, j < nrInode ∧ (m.fs.slot j).dev = dev ∧ (m.fs.slot j).count ≠ 0 := by
  unfold State.busy
  rw [List.any_eq_true]
  simp only [List.mem_range, Bool.and_eq_true, beq_iff_eq, bne_iff_ne]

theorem putSuper_spec {dev p : Nat} (hroot : dev ≠ m.rootDev) (hget : m.fs.getSuper dev = some p)
    (himount : (m.fs.super p).imount = none) :
    wp (putSuper dev) (fun _ m' => ∃ b, m' = { m.setSuper p ⟨0, none⟩ with bcount := b } ∧
      addRefs b dev (entries (m.maps p)) = m.bcount) Calm m := by
  unfold putSuper
  rw [wp_bind, wp_get, if_neg hroot, hget]
  dsimp only
  rw [himount, if_neg (fun hn => hn rfl), wp_bind, wp_set]
  exact brelseAll_spec dev (entries (m.maps p))

theorem Inv.failed (h : Inv m) : Failed m m :=
  Failed.mk m.fs m.isup m.maps h.refs_self fun _ => Or.inl rfl

theorem umountDev_spec (h : Inv m) (dev : Nat) : wp (umountDev dev) (UmountEnd m) Calm m := by
  unfold umountDev
  rw [wp_bind, wp_get, wp_ite]
  refine ⟨fun _ => Or.inl ⟨by decide, h.failed⟩, fun hroot => ?_⟩
  cases hget : m.fs.getSuper dev with
  | none => exact Or.inl ⟨by decide, h.failed⟩
  | some p =>
    dsimp only
    obtain ⟨h0, q, hp, hdev, hqp⟩ := dev_of_super (s := m.fs) (by rw [hget]; exact Option.some_ne_none p)
    obtain rfl : p = q := Option.some.inj (hget.symm.trans hqp)
    cases himount : (m.fs.super p).imount with
    | none => exact Or.inl ⟨by decide, h.failed⟩
    | some i =>
      dsimp only
      rw [wp_ite]
      refine ⟨fun _ => Or.inl ⟨by decide, h.failed⟩, fun hbusy => ?_⟩
      -- no inode of the device is in use, so its super block may go
      have hfree : ∀ j, j < nrInode → (m.fs.slot j).count ≠ 0 → (m.fs.slot j).dev ≠ dev :=
        fun j hj hz heq => hbusy (busy_iff.mpr ⟨j, hj, heq, hz⟩)
      have hsuper : m.fs.super p = ⟨dev, some i⟩ := by
        rw [← hdev, ← himount]
      have hused := h.covered hp himount
      have hi := (h.super p i hp himount).1
      -- `iput` takes back the reference of the super block
      have hbase : Refs (uncover m.fs i) [i]
          { m.fs with mount := Function.update m.fs.mount i false } := by
        refine ⟨rfl, ⟨rfl, rfl⟩, fun j _ => count_uncover hused,
          fun j _ _ => ⟨(keyOf_uncover m.fs i j).symm, rfl⟩, ?_, h.idle, h.clean, h.known⟩
        intro j hj hz
        show Function.update m.fs.mount i false j = false
        by_cases hji : j = i
        · rw [hji, Function.update_self]
        · rw [Function.update_of_ne hji]
          refine h.loose hj ?_
          rw [count_uncover hused, hz, List.count_cons_of_ne (Ne.symm hji)]
          rfl
      rw [wp_bind, wp_set, wp_bind]
      refine onFs_spec (iput_refs hbase hi) ?_
      rintro _ fs ⟨hr, -⟩
      have hsup : fs.super = m.fs.super := hr.super
      rw [wp_bind, wp_modify, h.isup p hp (by rw [hdev]; exact hroot)]
      dsimp only
      rw [wp_bind, wp_modify, wp_bind]
      refine wp_mono (putSuper_spec (p := p) hroot ?_ ?_) ?_ fun _ _ he => he
      · show Path.State.getSuper _ dev = some p
        rw [getSuper_congr (s := m.fs) ?_ dev, hget]
        intro q
        show (Function.update fs.super p ⟨(fs.super p).dev, none⟩ q).dev = _
        rw [hsup]
        by_cases hqp : q = p
        · rw [hqp, Function.update_self]
        · rw [Function.update_of_ne hqp]
      · show (Function.update fs.super p ⟨(fs.super p).dev, none⟩ p).imount = none
        rw [Function.update_self]
      rintro _ m₁ ⟨b, rfl, hb⟩
      replace hb : addRefs b dev (entries (m.maps p)) = m.bcount := hb
      have hinv := uncover_inv h b hr hp hsuper hroot hfree
      rw [wp_bind]
      refine onFs_spec (Q := fun _ fs' => Refs { fs with super := Function.update m.fs.super p ⟨0, none⟩ }
        [] fs') ?_ ?_
      · unfold State.setSuper
        dsimp only
        rw [Function.update_idem, hsup]
        exact wp_mono (syncInodes_refs hinv.refs_self) (fun _ _ h => h.1) fun _ _ he => he
      · intro _ fs' hr'
        rw [wp_pure]
        have hmore := hinv.more (X := []) hr' fun j hj => by cases hj
        refine Or.inr ⟨rfl, dev, i, hroot, hi, hfree, ⟨p, hp, hsuper, hr'.super, hb⟩, ?_, ?_,
          ⟨rfl, rfl⟩, hmore⟩
        · intro j hj
          show _ = (fs'.slot j).count + _
          rw [hr'.count j hj, List.count_nil, Nat.add_zero, count_uncover hused]
          show _ = (fs.slot j).count + _
          rw [hr.count j hj, List.count_nil, Nat.add_zero]
        · intro j hj hz
          replace hz : (fs'.slot j).count ≠ 0 := hz
          rw [hr'.count j hj, List.count_nil, Nat.add_zero] at hz
          have hz₁ : ((uncover m.fs i).slot j).count ≠ 0 := by
            have hc := hr.count j hj
            rw [List.count_nil, Nat.add_zero] at hc
            rw [← hc]
            exact hz
          exact (hr'.pinned j hj hz).1.trans
            ((hr.pinned j hj hz₁).1.trans (keyOf_uncover m.fs i j))

/-! ## The calls -/

theorem Failed.trans {m₁ : State} {fs : Path.State} (hr : Refs m.fs [] fs)
    (hf : Failed { m with fs := fs } m₁) : Failed m m₁ := by
  cases hf with
  | mk fs' isup maps hr' hisup =>
    refine Failed.mk fs' isup maps ?_ hisup
    exact hr.trans hr'

theorem Mounted.trans {m₁ : State} {fs : Path.State} {dev dir : Nat} (hr : Refs m.fs [] fs)
    (hm : Mounted { m with fs := fs } dev dir m₁) : Mounted m dev dir m₁ := by
  have hcount : ∀ i, i < nrInode → (fs.slot i).count = (m.fs.slot i).count := hr.count
  have hdir : (fs.slot dir).count = 0 := hm.slot.2
  have hnew : fs.getSuper dev = none := hm.fresh.2
  have hsuper := hm.super
  have hslots := hm.count
  have hkeys := hm.keys
  dsimp only at hsuper hslots hkeys
  refine ⟨⟨hm.fresh.1, (hr.getSuper dev).symm.trans hnew⟩,
    ⟨hm.slot.1, (hcount dir hm.slot.1).symm.trans hdir⟩, ?_, ?_, ?_, hm.rest, hm.inv⟩
  · rw [← hr.super]
    exact hsuper
  · intro i hi
    rw [hslots i hi, hcount i hi]
  · intro i hi hz
    exact (hkeys i hi (by rw [hcount i hi]; exact hz)).trans (hr.pinned i hi hz).1

theorem Unmounted.trans {m₁ : State} {fs : Path.State} {dev i : Nat} (hr : Refs m.fs [] fs)
    (hm : Unmounted { m with fs := fs } dev i m₁) : Unmounted m dev i m₁ := by
  have hcount : ∀ i, i < nrInode → (fs.slot i).count = (m.fs.slot i).count := hr.count
  have hfree := hm.free
  have hsuper := hm.super
  have hslots := hm.count
  have hkeys := hm.keys
  dsimp only at hfree hsuper hslots hkeys
  refine ⟨hm.noRoot, hm.slot, ?_, ?_, ?_, ?_, hm.rest, hm.inv⟩
  · intro j hj hz
    rw [← show (fs.slot j).dev = (m.fs.slot j).dev from congrArg Prod.fst (hr.pinned j hj hz).1]
    exact hfree j hj (by rw [hcount j hj]; exact hz)
  · rw [← hr.super]
    exact hsuper
  · intro j hj
    rw [← hcount j hj, hslots j hj]
  · intro j hj hz
    refine (hkeys j hj hz).trans (hr.pinned j hj ?_).1
    rw [← hcount j hj, hslots j hj]
    omega

theorem MountEnd.trans {m₁ : State} {fs : Path.State} {r : Int} (hr : Refs m.fs [] fs)
    (he : MountEnd { m with fs := fs } r m₁) : MountEnd m r m₁ := by
  rcases he with ⟨h0, hf⟩ | ⟨h0, dev, dir, hm⟩
  · exact Or.inl ⟨h0, Failed.trans hr hf⟩
  · exact Or.inr ⟨h0, dev, dir, Mounted.trans hr hm⟩

theorem UmountEnd.trans {m₁ : State} {fs : Path.State} {r : Int} (hr : Refs m.fs [] fs)
    (he : UmountEnd { m with fs := fs } r m₁) : UmountEnd m r m₁ := by
  rcases he with ⟨h0, hf⟩ | ⟨h0, dev, i, hm⟩
  · exact Or.inl ⟨h0, Failed.trans hr hf⟩
  · exact Or.inr ⟨h0, dev, i, Unmounted.trans hr hm⟩

/-- `namei` of a task, between calls. -/
theorem Inv.namei (h : Inv m) (path : Name) : wp (Path.namei path) (Yields m.fs []) Quiet m.fs :=
  namei_refs h.sound h.refs_self (h.task (Or.inl rfl)) (h.task (Or.inr rfl)) path

theorem Inv.quit (h : Inv m) {fs : Path.State} (hr : Refs m.fs [] fs) :
    Inv { m with fs := fs } ∧ Failed m { m with fs := fs } :=
  ⟨h.more (X := []) hr fun i hi => (by cases hi), Failed.mk fs m.isup m.maps hr fun _ => Or.inl rfl⟩

theorem sysMount_spec (h : Inv m) {devName : Name} (hfits : fits m devName) (dirName : Name) :
    wp (sysMount devName dirName) (MountEnd m) Calm m := by
  unfold sysMount
  rw [wp_bind]
  refine onFs_run (h.namei devName) ?_
  rintro r fs hrun ⟨hr, hk⟩
  cases r with
  | none => exact Or.inl ⟨by decide, (h.quit hr).2⟩
  | some k =>
    dsimp only
    rw [wp_bind, wp_get, wp_bind]
    refine onFs_spec (iput_refs hr (hk k rfl).1) ?_
    rintro _ fs₁ ⟨hr₁, -⟩
    obtain ⟨h₁, hf₁⟩ := h.quit hr₁
    rw [wp_ite]
    refine ⟨fun _ => Or.inl ⟨by decide, hf₁⟩, fun _ => ?_⟩
    rw [wp_bind]
    refine onFs_spec (h₁.namei dirName) ?_
    rintro r fs₂ ⟨hr₂, hdir⟩
    cases r with
    | none => exact MountEnd.trans hr₁ (Or.inl ⟨by decide, (h₁.quit hr₂).2⟩)
    | some dir =>
      refine wp_mono (mountOn_spec h₁ hr₂ (hdir dir rfl).1 (hdir dir rfl).2 (hfits k fs hrun)) ?_
        fun _ _ he => he
      exact fun r m₁ he => MountEnd.trans hr₁ he

theorem sysUmount_spec (h : Inv m) (devName : Name) :
    wp (sysUmount devName) (UmountEnd m) Calm m := by
  unfold sysUmount
  rw [wp_bind]
  refine onFs_spec (h.namei devName) ?_
  rintro r fs ⟨hr, hk⟩
  cases r with
  | none => exact Or.inl ⟨by decide, (h.quit hr).2⟩
  | some k =>
    dsimp only
    rw [wp_bind, wp_get, wp_bind]
    refine onFs_spec (iput_refs hr (hk k rfl).1) ?_
    rintro _ fs₁ ⟨hr₁, -⟩
    obtain ⟨h₁, hf₁⟩ := h.quit hr₁
    rw [wp_ite]
    refine ⟨fun _ => Or.inl ⟨by decide, hf₁⟩, fun _ => ?_⟩
    refine wp_mono (umountDev_spec h₁ _) ?_ fun _ _ he => he
    exact fun r m₁ he => UmountEnd.trans hr₁ he

/-! ## Runs -/

theorem inv_step (h : Inv m) (hs : Step fits m m') : Inv m' := by
  cases hs with
  | mount devName dirName r hfits hrun =>
    rcases wp_ok (sysMount_spec h hfits dirName) hrun with ⟨-, hf⟩ | ⟨-, dev, dir, hm⟩
    · exact hf.inv h
    · exact hm.inv
  | umount devName r hrun =>
    rcases wp_ok (sysUmount_spec h devName) hrun with ⟨-, hf⟩ | ⟨-, dev, i, hm⟩
    · exact hf.inv h
    · exact hm.inv
  | piece hp => exact inv_piece h hp
  | disks dsuper reads =>
    exact ⟨h.count, h.idle, h.clean, h.known, h.flag, h.super, h.inUse, h.devs, h.ons, h.isup,
      h.root, h.tasks, h.refs⟩

theorem inv_reach (h : Inv m) (hrun : Reach fits m m') : Inv m' := by
  induction hrun with
  | refl => exact h
  | tail _ hs ih => exact inv_step ih hs

theorem fresh_refs (hfresh : Fresh m) (fs : Path.State) (hcore : fs.core = m.fs.core)
    (hmount : fs.mount = m.fs.mount) : Refs fs [] fs := by
  obtain ⟨hslot, hflag, -⟩ := hfresh
  have hzero : ∀ i, fs.slot i = Slot.zero := by
    intro i
    unfold Path.State.slot
    rw [hcore]
    exact hslot i
  refine ⟨rfl, ⟨rfl, rfl⟩, fun _ _ => rfl, fun _ _ _ => ⟨rfl, rfl⟩, ?_, ?_, ?_, ?_⟩
  · intro i _ _
    rw [hmount]
    exact hflag i
  · intro i _ _
    rw [hzero]
    rfl
  · intro i _ _
    rw [hzero]
    rfl
  · intro i _ hz
    rw [hzero] at hz
    exact absurd rfl hz

theorem slot_hold {p : Nat} (i : Nat) : ((m.hold p k).fs.slot i).dev = (m.fs.slot i).dev ∧
    ((m.hold p k).fs.slot i).dirt = (m.fs.slot i).dirt ∧
    ((m.hold p k).fs.slot i).count = (m.fs.slot i).count + if i = k then 3 else 0 := by
  by_cases hi : i = k
  · subst hi
    rw [show (m.hold p i).fs.slot i = { m.fs.slot i with count := (m.fs.slot i).count + 3 } from
      slot_setSlot m.fs i _, if_pos rfl]
    exact ⟨rfl, rfl, rfl⟩
  · rw [show (m.hold p k).fs.slot i = m.fs.slot i from slot_setSlot_of_ne hi _, if_neg hi]
    exact ⟨rfl, rfl, rfl⟩

/-- The end of `mount_root`: one super block, one inode. -/
theorem inv_hold {p : Nat} (hr : Refs s₀ [k] m.fs) (hzero : ∀ i, (s₀.slot i).count = 0)
    (hp : p < nrSuper) (hsuper : ∀ q, m.fs.super q = if q = p then ⟨m.rootDev, none⟩ else ⟨0, none⟩)
    (h0 : m.rootDev ≠ 0) (hisup : ∀ q, m.isup q = none) (hk : k < nrInode)
    (hdev : (m.fs.slot k).dev ≠ 0) : Inv (m.hold p k) := by
  -- one super block is in use, and it has one slot
  have hself : (m.hold p k).fs.super p = ⟨m.rootDev, some k⟩ := by
    show Function.update m.fs.super p ⟨(m.fs.super p).dev, some k⟩ p = _
    rw [Function.update_self, hsuper, if_pos rfl]
  have hother : ∀ q, q ≠ p → (m.hold p k).fs.super q = ⟨0, none⟩ := by
    intro q hq
    show Function.update m.fs.super p ⟨(m.fs.super p).dev, some k⟩ q = _
    rw [Function.update_of_ne hq, hsuper, if_neg hq]
  have honly : ∀ q i, ((m.hold p k).fs.super q).imount = some i → q = p ∧ i = k := by
    intro q i hq
    by_cases hqp : q = p
    · rw [hqp, hself] at hq
      exact ⟨hqp, (Option.some.inj hq).symm⟩
    · rw [hother q hqp] at hq
      cases hq
  have honlyDev : ∀ q, ((m.hold p k).fs.super q).dev ≠ 0 → q = p := by
    intro q hq
    by_contra hqp
    rw [hother q hqp] at hq
    exact hq rfl
  have hget : ∀ dev, m.fs.getSuper dev ≠ none → (m.hold p k).fs.getSuper dev ≠ none := by
    intro dev hd
    rw [getSuper_congr (s := m.fs) ?_ dev]
    · exact hd
    · intro q
      by_cases hqp : q = p
      · rw [hqp, hself, hsuper, if_pos rfl]
      · rw [hother q hqp, hsuper, if_neg hqp]
  refine ⟨?_, ?_, ?_, ?_, ?_, ?_, ?_, ?_, ?_, ?_, ?_, ?_, ?_⟩
  · intro i hi
    have hm := mountsOn_update m.fs.super hp ⟨(m.fs.super p).dev, some k⟩ i
    have hm0 : mountsOn m.fs.super i = 0 := by
      refine refs_eq_zero_iff.mpr fun q _ hq => ?_
      rw [hsuper] at hq
      split at hq <;> cases hq
    have himount : (m.fs.super p).imount = none := by rw [hsuper, if_pos rfl]
    rw [hm0, himount, if_neg (show ¬ (none : Option Nat) = some i by simp)] at hm
    show ((m.hold p k).fs.slot i).count =
      [k, k, k].count i + mountsOn (Function.update m.fs.super p ⟨(m.fs.super p).dev, some k⟩) i
    rw [(slot_hold i).2.2, hr.count i hi, hzero]
    by_cases hik : i = k
    · subst hik
      rw [if_pos rfl] at hm
      rw [if_pos rfl]
      simp only [List.count_cons_self, List.count_nil]
      omega
    · rw [if_neg (by simpa using Ne.symm hik)] at hm
      simp only [List.count_cons_of_ne (Ne.symm hik), List.count_nil]
      rw [if_neg hik]
      omega
  · intro i hi
    rw [(slot_hold i).1, (slot_hold i).2.1]
    exact hr.idle i hi
  · intro i hi hz
    rw [(slot_hold i).2.2] at hz
    rw [(slot_hold i).2.1]
    exact hr.clean i hi (by omega)
  · intro i hi hz hd
    rw [(slot_hold i).2.2] at hz
    rw [(slot_hold i).1] at hd ⊢
    refine hget _ (hr.known i hi ?_ hd)
    by_cases hik : i = k
    · rw [hik]
      exact hr.used hk
    · rw [if_neg hik] at hz
      exact hz
  · intro i hi
    rw [show (m.hold p k).fs.mount i = false from hr.loose i hi (hzero i)]
    refine ⟨fun hf => (by cases hf), ?_⟩
    rintro ⟨q, -, hqd, hqi⟩
    rw [(honly q i hqi).1, hself] at hqd
    exact absurd rfl hqd
  · intro q i hq hqi
    obtain ⟨rfl, rfl⟩ := honly q i hqi
    rw [hself]
    exact ⟨hk, h0, fun hne => absurd rfl hne⟩
  · intro q hq hqd
    rw [honlyDev q hqd, hself]
    exact Option.some_ne_none k
  · intro q q' hq hq' hqd heq
    rw [honlyDev q hqd, honlyDev q' (by rw [heq]; exact hqd)]
  · intro q q' i hq hq' hqi hqi'
    rw [(honly q i hqi).1, (honly q' i hqi').1]
  · intro q hq hqd
    show Function.update m.isup p (some k) q = none
    have hqp : q ≠ p := by
      rintro rfl
      rw [hself] at hqd
      exact hqd rfl
    rw [Function.update_of_ne hqp]
    exact hisup q
  · refine getSuper_iff.mpr ⟨h0, p, hp, ?_⟩
    rw [hself]
    rfl
  · intro j hj
    have hjk : j = k := by
      rcases hj with hj | hj
      · exact hj
      · exact hj
    subst hjk
    refine ⟨List.mem_cons_self, ?_⟩
    rw [(slot_hold j).1]
    exact hdev
  · intro i hi
    have hik : i ∈ [k, k, k] := hi
    simp only [List.mem_cons, List.not_mem_nil, or_false, or_self] at hik
    rw [hik]
    exact hk

theorem inv_mountRoot (hfresh : Fresh m) (hfits : m.Fits m.rootDev)
    (hrun : mountRoot m = .ok () m') : Inv m' := by
  have hnone : ∀ p, m.fs.super p = ⟨0, none⟩ := hfresh.2.2.1
  have hisup : ∀ p, m.isup p = none := hfresh.2.2.2.1
  have hroot0 : m.rootDev ≠ 0 := hfresh.2.2.2.2.1
  refine wp_ok (x := mountRoot) (Q := fun _ m' => Inv m') (E := fun _ _ => True) ?_ hrun
  unfold mountRoot
  rw [wp_bind, wp_modify, wp_bind, wp_get, wp_bind]
  have hsame : (fun p => { m.fs.super p with dev := 0 } : Nat → Super) = fun _ => ⟨0, none⟩ := by
    funext p
    rw [hnone p]
  rw [hsame]
  refine wp_mono (readSuper_spec (fun _ _ _ => rfl) hfits) ?_ fun _ _ _ => trivial
  intro r m₁ hread
  cases hread with
  | failed isup maps hisup => exact trivial
  | found p hp =>
    obtain ⟨hd0, q, -, hq, -⟩ := dev_of_super (by rw [hp]; exact Option.some_ne_none p)
    exact absurd hq.symm hd0
  | fresh p maps h0 hnew hp hfree =>
    dsimp only
    have hself := fresh_refs hfresh
      { m.fs with super := Function.update (fun _ => ⟨0, none⟩) p ⟨m.rootDev, none⟩ } rfl rfl
    have hsuper : ∀ q, (Function.update (fun _ => ⟨0, none⟩ : Nat → Super) p ⟨m.rootDev, none⟩ q) =
        if q = p then ⟨m.rootDev, none⟩ else ⟨0, none⟩ := fun q => Function.update_apply ..
    have hsound : Sound { m.fs with
        super := Function.update (fun _ => ⟨0, none⟩) p ⟨m.rootDev, none⟩ } := by
      intro q i _ hq
      replace hq : (Function.update (fun _ => ⟨0, none⟩ : Nat → Super) p ⟨m.rootDev, none⟩ q).imount =
        some i := hq
      rw [hsuper] at hq
      split at hq <;> cases hq
    have hget : wp (iget m.rootDev rootIno) (GetsInode _ []) Quiet _ := iget_refs hsound hself fun _ =>
      getSuper_iff.mpr ⟨hroot0, p, hp, congrArg Super.dev ((hsuper p).trans (if_pos rfl))⟩
    rw [wp_bind]
    have hend : wp (onFs (iget m.rootDev rootIno)) (fun k m₂ => Inv (m₂.hold p k)) Calm
        { m with
          fs := { m.fs with super := Function.update (fun _ => ⟨0, none⟩) p ⟨m.rootDev, none⟩ }
          isup := Function.update m.isup p none
          maps := maps
          bcount := addRefs m.bcount m.rootDev (entries (maps p)) } := by
      refine onFs_spec hget ?_
      rintro k fs ⟨⟨hr, hk⟩, hdev⟩
      refine inv_hold hr (fun i => ?_) hp (fun q => ?_) hroot0 (fun q => ?_) hk hdev
      · show (m.fs.slot i).count = 0
        rw [hfresh.1 i]
        rfl
      · show fs.super q = _
        rw [hr.super]
        exact hsuper q
      · show Function.update m.isup p none q = none
        rw [Function.update_apply, hisup, ite_self]
    exact wp_mono hend (fun _ _ h => h) fun _ _ _ => trivial

/-- What a call that fails leaves: the mount relation. -/
def SameMounts (m m' : State) : Prop := (∀ dev i, m'.Covers dev i ↔ m.Covers dev i) ∧
  ∀ i, i < nrInode → m'.fs.mount i = m.fs.mount i ∧
    ∀ dev, m.Covers dev i → m'.fs.keyOf i = m.fs.keyOf i

theorem Failed.same (h : Inv m) (hf : Failed m m') : SameMounts m m' := by
  cases hf with
  | mk fs isup maps hr hisup =>
    refine ⟨fun dev i => ?_, fun i hi => ⟨?_, ?_⟩⟩
    · unfold State.Covers
      dsimp only
      rw [hr.super]
    · show fs.mount i = m.fs.mount i
      by_cases hz : (m.fs.slot i).count = 0
      · rw [hr.loose i hi hz, h.loose hi hz]
      · exact (hr.pinned i hi hz).2
    · rintro dev ⟨-, p, hp, hsuper⟩
      exact (hr.pinned i hi (h.covered hp (by rw [hsuper]))).1

/-- What is unmounted is all that is not mounted after it. -/
theorem Unmounted.covers {dev i : Nat} (h : Inv m) (hm : Unmounted m dev i m') :
    m.Covers dev i ∧ ∀ d j, m'.Covers d j ↔ m.Covers d j ∧ d ≠ dev := by
  obtain ⟨p, hp, hsuper, hsuper', -⟩ := hm.super
  have h0 : dev ≠ 0 := by
    have hd := (h.super p i hp (by rw [hsuper])).2.1
    rw [hsuper] at hd
    exact hd
  refine ⟨⟨h0, p, hp, hsuper⟩, fun d j => ⟨?_, ?_⟩⟩
  · rintro ⟨hd, q, hq, hqs⟩
    rw [hsuper'] at hqs
    have hqp : q ≠ p := by
      rintro rfl
      rw [Function.update_self, Super.mk.injEq] at hqs
      exact hd hqs.1.symm
    rw [Function.update_of_ne hqp] at hqs
    refine ⟨⟨hd, q, hq, hqs⟩, ?_⟩
    rintro rfl
    exact hqp (h.devs p q hp hq (by rw [hsuper]; exact hd) (by rw [hsuper, hqs]))
  · rintro ⟨⟨hd, q, hq, hqs⟩, hne⟩
    refine ⟨hd, q, hq, ?_⟩
    have hqp : q ≠ p := by
      rintro rfl
      rw [hsuper, Super.mk.injEq] at hqs
      exact hne hqs.1.symm
    rw [hsuper', Function.update_of_ne hqp]
    exact hqs

/-- A mount and the umount of what it mounted. -/
theorem mount_umount {m₁ m₂ : State} {dev dir dev' i : Nat} (hm : Mounted m dev dir m₁)
    (hu : Unmounted m₁ dev' i m₂) (hdev : ∀ d j, ¬ m.Covers d j → m₁.Covers d j → ¬ m₂.Covers d j) :
    (∀ j, j < nrInode → (m₂.fs.slot j).count = (m.fs.slot j).count ∧
      ((m.fs.slot j).count ≠ 0 → m₂.fs.keyOf j = m.fs.keyOf j)) ∧
    m₂.bcount = m.bcount ∧ m₂.fs.super = m.fs.super := by
  obtain ⟨h0, hnew⟩ := hm.fresh
  obtain ⟨p, hp, hfree, hsuper, hb⟩ := hm.super
  obtain ⟨q, hq, hqs, hsuper', hb'⟩ := hu.super
  have hself : m₁.fs.super p = ⟨dev, some dir⟩ := by
    rw [hsuper, Function.update_self]
  have hbefore : ¬ m.Covers dev dir := by
    rintro ⟨-, r, hr, hrs⟩
    exact getSuper_iff.mpr ⟨h0, r, hr, by rw [hrs]⟩ hnew
  have hafter := hdev dev dir hbefore ⟨h0, p, hp, hself⟩
  have hqp : q = p := by
    by_contra hqp
    refine hafter ⟨h0, p, hp, ?_⟩
    rw [hsuper', Function.update_of_ne (Ne.symm hqp), hself]
  subst hqp
  rw [hself, Super.mk.injEq, Option.some.injEq] at hqs
  obtain ⟨rfl, rfl⟩ := hqs
  refine ⟨fun j hj => ?_, ?_, ?_⟩
  · have hc := hm.count j hj
    have hc' := hu.count j hj
    refine ⟨by omega, fun hz => ?_⟩
    exact (hu.keys j hj (by omega)).trans (hm.keys j hj hz)
  · rw [hb] at hb'
    exact addRefs_cancel hb'
  · rw [hsuper', hsuper, Function.update_idem, ← hfree, Function.update_eq_self]

/-- **The mount table.** After every sequence of `sys_mount`, `sys_umount` and other calls
in which the maps of what is mounted fit: the flags of the inodes and the super blocks
agree, a device is mounted once, a call that fails changes nothing, and a umount undoes
a mount. -/
theorem mount_table {m₀ m₁ m : State} (hfresh : Fresh m₀) (hfits : m₀.Fits m₀.rootDev)
    (hroot : mountRoot m₀ = .ok () m₁) (hrun : Reach fits m₁ m) :
    (∀ i, i < nrInode → (m.fs.mount i = true ↔ ∃! p, p < nrSuper ∧ (m.fs.super p).dev ≠ 0 ∧
      (m.fs.super p).dev ≠ m.rootDev ∧ (m.fs.super p).imount = some i)) ∧
    (∀ p q, p < nrSuper → q < nrSuper → (m.fs.super p).dev ≠ 0 →
      (m.fs.super q).dev = (m.fs.super p).dev → q = p) ∧
    (∀ dev i j, m.Covers dev i → m.Covers dev j → i = j) ∧
    (∀ dev i, m.Covers dev i → dev ≠ m.rootDev → i < nrInode ∧ (m.fs.slot i).num ≠ rootIno) ∧
    (∀ devName m', sysUmount devName m = .ok 0 m' → ∃ dev i, m.Covers dev i ∧
      (∀ d j, m'.Covers d j ↔ m.Covers d j ∧ d ≠ dev) ∧
      ∀ j, j < nrInode → (m.fs.slot j).dev = dev → (m.fs.slot j).count = 0) ∧
    (∀ devName dirName r m', fits m devName → r ≠ 0 → sysMount devName dirName m = .ok r m' →
      SameMounts m m') ∧
    (∀ devName r m', r ≠ 0 → sysUmount devName m = .ok r m' → SameMounts m m') ∧
    (∀ devName m', sysUmount devName m ≠ .error (.fs .writeNoDevice) m') ∧
    (∀ devName dirName devName' m₂ m₃, fits m devName → sysMount devName dirName m = .ok 0 m₂ →
      sysUmount devName' m₂ = .ok 0 m₃ →
      (∀ dev i, ¬ m.Covers dev i → m₂.Covers dev i → ¬ m₃.Covers dev i) →
      (∀ i, i < nrInode → (m₃.fs.slot i).count = (m.fs.slot i).count ∧
        ((m.fs.slot i).count ≠ 0 → m₃.fs.keyOf i = m.fs.keyOf i)) ∧
      m₃.bcount = m.bcount ∧ m₃.fs.super = m.fs.super) := by
  have h := inv_reach (inv_mountRoot hfresh hfits hroot) hrun
  refine ⟨?_, h.devs, ?_, ?_, ?_, ?_, ?_, ?_, ?_⟩
  · intro i hi
    rw [h.flag i hi]
    constructor
    · rintro ⟨p, hp, hd, himount⟩
      refine ⟨p, ⟨hp, (h.super p i hp himount).2.1, hd, himount⟩, ?_⟩
      rintro q ⟨hq, -, -, hqi⟩
      exact h.ons p q i hp hq himount hqi
    · rintro ⟨p, ⟨hp, -, hd, himount⟩, -⟩
      exact ⟨p, hp, hd, himount⟩
  · rintro dev i j ⟨h0, p, hp, hps⟩ ⟨-, q, hq, hqs⟩
    have hqp := h.devs p q hp hq (by rw [hps]; exact h0) (by rw [hps, hqs])
    rw [hqp, hps, Super.mk.injEq, Option.some.injEq] at hqs
    exact hqs.2
  · rintro dev i ⟨h0, p, hp, hps⟩ hd
    obtain ⟨hi, -, hnum⟩ := h.super p i hp (by rw [hps])
    rw [hps] at hnum
    exact ⟨hi, hnum hd⟩
  · intro devName m' hrun
    rcases wp_ok (sysUmount_spec h devName) hrun with ⟨h0, -⟩ | ⟨-, dev, i, hm⟩
    · exact absurd rfl h0
    · obtain ⟨hcov, hcovers⟩ := hm.covers h
      refine ⟨dev, i, hcov, hcovers, fun j hj hd => ?_⟩
      by_contra hz
      exact hm.free j hj hz hd
  · intro devName dirName r m' hdev h0 hrun
    rcases wp_ok (sysMount_spec h hdev dirName) hrun with ⟨-, hf⟩ | ⟨h1, -⟩
    · exact hf.same h
    · exact absurd h1 h0
  · intro devName r m' h0 hrun
    rcases wp_ok (sysUmount_spec h devName) hrun with ⟨-, hf⟩ | ⟨h1, -⟩
    · exact hf.same h
    · exact absurd h1 h0
  · intro devName m' hrun
    exact (wp_error (sysUmount_spec h devName) hrun).1 rfl
  · intro devName dirName devName' m₂ m₃ hfit hmount humount hdev
    rcases wp_ok (sysMount_spec h hfit dirName) hmount with ⟨h1, -⟩ | ⟨-, dev, dir, hm⟩
    · exact absurd rfl h1
    · rcases wp_ok (sysUmount_spec hm.inv devName') humount with ⟨h1, -⟩ | ⟨-, dev', i, hu⟩
      · exact absurd rfl h1
      · exact mount_umount hm hu hdev

/-- What is on the disks: directories with the entries `a` and `d`, where `d` is the
special file of device `0x302`. -/
def volume (num : Nat) : Record :=
  if num = 41 then ⟨0o060644, 0, 0, 0, 0, 1, fun z => if z = 0 then 0x302 else 0⟩
  else { dirRecord num with size := 64 }

/-- The tables before `mount_root`. The second device has `n` blocks in its inode map. -/
def boot (n : Nat) : State :=
  { fs := { tree 0 with
      core := { (tree 0).core with disk := fun _ block i => volume (block * 32 + i + 1) }
      mount := fun _ => false
      super := fun _ => ⟨0, none⟩
      entry := fun dev block i => if i = 3 then mkEntry 41 [100#8] else (tree 0).entry dev block i }
    isup := fun _ => none
    maps := fun _ _ => none
    bcount := fun _ _ => 0
    dsuper := fun dev => ⟨true, if dev = 0x302 then n else 3, 4⟩
    reads := fun _ _ => true
    rootDev := 0x301
    refs := [] }

theorem fresh_boot (n : Nat) : Fresh (boot n) :=
  ⟨fun _ => rfl, fun _ => rfl, fun _ => rfl, fun _ => rfl, by show 0x301 ≠ 0; decide, rfl⟩

instance (m : State) (dev : Nat) : Decidable (m.Fits dev) :=
  inferInstanceAs (Decidable (_ → _ → _ ∧ (_ → _ ∧ (_ → _ ∧ _))))

/-- The condition of the runs, to be evaluated. -/
def fitting (m : State) (devName : Name) : Bool :=
  match namei devName m.fs with
  | .ok (some k) fs => decide (m.Fits ((fs.slot k).d.zone 0))
  | _ => true

theorem fits_of_fitting {devName : Name} (h : fitting m devName = true) : fits m devName := by
  intro k fs hrun
  unfold fitting at h
  rw [hrun] at h
  exact of_decide_eq_true h

/-- The state after a call that has returned 0. -/
def after : EStateM.Result Stop State Int → Option State
  | .ok r m => if r = 0 then some m else none
  | .error _ _ => none

theorem eq_of_after {x : EStateM.Result Stop State Int} (h : after x = some m) : x = .ok 0 m := by
  unfold after at h
  split at h
  · next r m' =>
    split at h
    · next h0 =>
      cases h
      rw [h0]
    · cases h
  · cases h

def booted (n : Nat) : State :=
  match mountRoot (boot n) with
  | .ok _ m => m
  | .error _ m => m

theorem mountRoot_boot {n : Nat}
    (h : (match mountRoot (boot n) with | .ok _ _ => true | .error _ _ => false) = true) :
    mountRoot (boot n) = .ok () (booted n) := by
  unfold booted
  cases hrun : mountRoot (boot n) with
  | ok _ _ => rfl
  | error _ _ =>
    rw [hrun] at h
    cases h

/-- `/d` is mounted on `/a`, and taken off again. -/
def mounted (n : Nat) : Option State := after (sysMount [slash, 100#8] [slash, 97#8] (booted n))

def unmounted (n : Nat) : Option State :=
  (mounted n).bind fun m => after (sysUmount [slash, 100#8] m)

/-- The same devices are mounted. -/
def sameSupers (m m' : State) : Bool :=
  (List.range nrSuper).all fun p =>
    (m'.fs.super p).dev == (m.fs.super p).dev && (m'.fs.super p).imount == (m.fs.super p).imount

theorem covers_of_sameSupers (h : sameSupers m m' = true) {dev i : Nat} (hm : m'.Covers dev i) :
    m.Covers dev i := by
  obtain ⟨h0, p, hp, hps⟩ := hm
  have hsame := List.all_eq_true.mp h p (List.mem_range.mpr hp)
  rw [hps, Bool.and_eq_true, beq_iff_eq, beq_iff_eq] at hsame
  have heta : m.fs.super p = ⟨(m.fs.super p).dev, (m.fs.super p).imount⟩ := rfl
  refine ⟨h0, p, hp, ?_⟩
  rw [heta, ← hsame.1, ← hsame.2]

theorem unmounted_eq {n : Nat} {m₃ : State} (h : unmounted n = some m₃) :
    ∃ m₂, mounted n = some m₂ ∧ sysMount [slash, 100#8] [slash, 97#8] (booted n) = .ok 0 m₂ ∧
      sysUmount [slash, 100#8] m₂ = .ok 0 m₃ := by
  obtain ⟨m₂, h₂, h₃⟩ := Option.bind_eq_some_iff.mp h
  exact ⟨m₂, h₂, eq_of_after h₂, eq_of_after h₃⟩

/-- While the device is mounted, slot 3 is covered; when it has been taken off, every
count is as it was. -/
theorem mount_table_device : ∃ m₁ m₂ m₃, mountRoot (boot 3) = .ok () m₁ ∧
    (sysMount [slash, 100#8] [slash, 97#8] m₁ = .ok 0 m₂ ∧ m₂.bcount 0x302 2 = 1 ∧
      ∃! p, p < nrSuper ∧ (m₂.fs.super p).dev ≠ 0 ∧ (m₂.fs.super p).dev ≠ m₂.rootDev ∧
        (m₂.fs.super p).imount = some 3) ∧
    sysUmount [slash, 100#8] m₂ = .ok 0 m₃ ∧ m₃.bcount = m₁.bcount ∧ m₃.fs.super = m₁.fs.super := by
  have hroot := mountRoot_boot (n := 3) (by decide +kernel)
  have hdev : (boot 3).Fits (boot 3).rootDev := by decide +kernel
  have hfit : fits (booted 3) [slash, 100#8] := fits_of_fitting (by decide +kernel)
  have hmounted : (mounted 3).map (fun m => decide (m.fs.mount 3 = true ∧ m.bcount 0x302 2 = 1)) =
      some true := by decide +kernel
  have hunmounted : (unmounted 3).map (sameSupers (booted 3)) = some true := by decide +kernel
  obtain ⟨m₃, h₃, hsame⟩ := Option.map_eq_some_iff.mp hunmounted
  obtain ⟨m₂, h₂, hmount, humount⟩ := unmounted_eq h₃
  rw [h₂] at hmounted
  obtain ⟨hflag, hcount⟩ := of_decide_eq_true (Option.some.inj hmounted)
  have hstart := mount_table (fresh_boot 3) hdev hroot .refl
  have hrun := mount_table (fresh_boot 3) hdev hroot (.single (.mount _ _ 0 hfit hmount))
  obtain ⟨-, hb, hs⟩ := hstart.2.2.2.2.2.2.2.2 _ _ _ m₂ m₃ hfit hmount humount
    fun dev i hno _ hm => hno (covers_of_sameSupers hsame hm)
  exact ⟨booted 3, m₂, m₃, hroot, ⟨hmount, hcount, (hrun.1 3 (by decide)).mp hflag⟩, humount, hb, hs⟩

/-- Nine blocks in the inode map: the ninth is stored in `s_zmap[0]`, and lost when the
first block of the zone map goes there. Its buffer is never released. -/
theorem mount_nine_blocks :
    ¬ ∀ (m₀ m₁ m : State), Fresh m₀ → mountRoot m₀ = .ok () m₁ → Reach (fun _ _ => True) m₁ m →
        ∀ devName dirName devName' m₂ m₃, sysMount devName dirName m = .ok 0 m₂ →
          sysUmount devName' m₂ = .ok 0 m₃ →
          (∀ dev i, ¬ m.Covers dev i → m₂.Covers dev i → ¬ m₃.Covers dev i) →
          m₃.bcount = m.bcount := by
  intro hclaim
  have hroot := mountRoot_boot (n := 9) (by decide +kernel)
  have hunmounted : (unmounted 9).map (fun m => decide (sameSupers (booted 9) m = true ∧
      m.bcount 0x302 10 = 1 ∧ (booted 9).bcount 0x302 10 = 0)) = some true := by decide +kernel
  obtain ⟨m₃, h₃, hend⟩ := Option.map_eq_some_iff.mp hunmounted
  obtain ⟨hsame, hkept, hzero⟩ := of_decide_eq_true hend
  obtain ⟨m₂, -, hmount, humount⟩ := unmounted_eq h₃
  have hb := hclaim _ _ _ (fresh_boot 9) hroot .refl _ _ _ m₂ m₃ hmount humount
    fun dev i hno _ hm => hno (covers_of_sameSupers hsame hm)
  rw [hb, hzero] at hkept
  cases hkept

end Linux011.Fs.Mount
