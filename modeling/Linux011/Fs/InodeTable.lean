import Linux011.Fs.Inodes

/-!
# The inode table — one slot for an inode

`iget` looks through the table and installs an inode when no slot has it; between
the last look and the installation it does not sleep. `new_inode` does not look: it
takes a number whose bit is clear, which no slot has as long as `iget` is asked for
allocated inodes only.

* `Table.install`, `Table.create`, `Table.free` — the steps that move inodes;
* `scan_table`, `put_table`, `empty_table` — the procedures;
* `inodes_unique` — no two slots have one inode, and `get_empty_inode` takes unused
  slots only, as long as `iget` installs no inode whose bit is clear;
* `inode_twice` — what happens otherwise.
-/

namespace Linux011.Fs.Inodes

open Linux011.Lib Linux011.Lib.Kernel

/-- No two slots have the same inode. -/
def UniqueKeys (s : State) : Prop :=
  ∀ i j, i < nrInode → j < nrInode → (s.inode i).dev ≠ 0 → (s.inode i).dev = (s.inode j).dev →
    (s.inode i).num = (s.inode j).num → i = j

/-- The table: inodes in core are unique and allocated. -/
structure Table (s : State) : Prop where
  unique : UniqueKeys s
  alloc  : ∀ i, i < nrInode → (s.inode i).dev ≠ 0 → s.bit (s.inode i).dev (s.inode i).num = true

/-- The condition of the runs: `iget` installs allocated inodes. -/
def allocated : Tag → State → Prop
  | .install _ dev nr, s => s.bit dev nr = true
  | _, _ => True

/-- `get_empty_inode` takes unused slots. -/
def unused : Option Tag → State → Prop
  | some (.reuse i), s => (s.inode i).count = 0
  | _, _ => True

/-- The keys of the slots and the bits. -/
structure Keeps (s s' : State) : Prop where
  dev : ∀ i, (s'.inode i).dev = (s.inode i).dev
  num : ∀ i, (s'.inode i).num = (s.inode i).num
  bit : s'.bit = s.bit

variable {s s' : State} {n : Nat}

theorem Table.keeps (T : Table s) (h : Keeps s s') : Table s' := by
  constructor
  · intro i j hi hj hne hdev hnum
    rw [h.dev] at hne hdev
    rw [h.dev] at hdev
    rw [h.num, h.num] at hnum
    exact T.unique i j hi hj hne hdev hnum
  · intro i hi hne
    rw [h.dev] at hne
    rw [h.dev, h.num, h.bit]
    exact T.alloc i hi hne

theorem keeps_outside (h : Outside s s') : Keeps s s' := by
  obtain ⟨B, x, hx, rfl⟩ := h
  exact ⟨fun i => (hx i).1, fun i => (hx i).2.1, rfl⟩

def tableContract : Contract kernel Unit where
  inv := fun _ s => Table s
  allow := allocated
  check := fun tag s _ => unused tag s
  rest := fun _ => True
  inv_env := fun _ _ _ h he => h.keeps (keeps_outside he)
  reads := fun _ _ _ => trivial

/-! ## The steps -/

/-- An update of a slot that keeps its inode. -/
theorem keeps_setInode {i : Nat} {x : Slot} (hdev : x.dev = (s.inode i).dev)
    (hnum : x.num = (s.inode i).num) : Keeps s (s.setInode i x) := by
  have hslot : ∀ j, (Function.update s.inode i x j).dev = (s.inode j).dev ∧
      (Function.update s.inode i x j).num = (s.inode j).num := by
    intro j
    by_cases hj : j = i
    · rw [hj, Function.update_self]
      exact ⟨hdev, hnum⟩
    · rw [Function.update_of_ne hj]
      exact ⟨rfl, rfl⟩
  exact ⟨fun j => (hslot j).1, fun j => (hslot j).2, rfl⟩

/-- A slot gets a key that no slot has. -/
theorem Table.enter (T : Table s) (e dev nr : Nat)
    (hnew : ∀ i, i < nrInode → ¬ ((s.inode i).dev = dev ∧ (s.inode i).num = nr))
    (hkey : (s'.inode e).dev = dev ∧ (s'.inode e).num = nr)
    (hother : ∀ i, i ≠ e → s'.inode i = s.inode i)
    (hbit : ∀ d k, s.bit d k = true → s'.bit d k = true) (hset : s'.bit dev nr = true) :
    Table s' := by
  constructor
  · intro i j hi hj hne hdev hnum
    by_cases hie : i = e
    · by_cases hje : j = e
      · rw [hie, hje]
      · rw [hie, hother j hje, hkey.1] at hdev
        rw [hie, hother j hje, hkey.2] at hnum
        exact absurd ⟨hdev.symm, hnum.symm⟩ (hnew j hj)
    · by_cases hje : j = e
      · rw [hje, hother i hie, hkey.1] at hdev
        rw [hje, hother i hie, hkey.2] at hnum
        exact absurd ⟨hdev, hnum⟩ (hnew i hi)
      · rw [hother i hie] at hne hdev hnum
        rw [hother j hje] at hdev hnum
        exact T.unique i j hi hj hne hdev hnum
  · intro i hi hne
    by_cases hie : i = e
    · rw [hie, hkey.1, hkey.2]
      exact hset
    · rw [hother i hie] at hne ⊢
      exact hbit _ _ (T.alloc i hi hne)

/-- `iget` installs an inode no slot has. -/
theorem Table.install (T : Table s) {e dev nr : Nat} (hnone : lookup s.inode dev nr = none)
    (hbit : s.bit dev nr = true) :
    Table (s.setInode e { s.inode e with dev := dev, num := nr }) := by
  refine T.enter e dev nr ?_ ?_ (fun i hi => Function.update_of_ne hi ..) (fun _ _ h => h) hbit
  · rintro i hi ⟨hdev, hnum⟩
    have h := List.find?_eq_none.mp hnone i (List.mem_range.mpr hi)
    simp [hdev, hnum] at h
  · show (Function.update s.inode e _ e).dev = dev ∧ (Function.update s.inode e _ e).num = nr
    rw [Function.update_self]
    exact ⟨rfl, rfl⟩

/-- `new_inode` takes a free inode. -/
theorem Table.create (T : Table s) {e dev j : Nat} (hdev : dev ≠ 0) (hfree : s.bit dev j = false)
    {x : Slot} (hx : x.dev = dev ∧ x.num = j) :
    Table { s.setInode e x with
      bit := Function.update s.bit dev (Function.update (s.bit dev) j true) } := by
  refine T.enter e dev j ?_ ?_ (fun i hi => Function.update_of_ne hi ..) ?_ ?_
  · rintro i hi ⟨hd, hn⟩
    have h := T.alloc i hi (by rw [hd]; exact hdev)
    rw [hd, hn, hfree] at h
    cases h
  · show (Function.update s.inode e x e).dev = dev ∧ (Function.update s.inode e x e).num = j
    rw [Function.update_self]
    exact hx
  · intro d k h
    show Function.update s.bit dev (Function.update (s.bit dev) j true) d k = true
    by_cases hd : d = dev
    · subst hd
      rw [Function.update_self]
      by_cases hk : k = j
      · rw [hk, Function.update_self]
      · rw [Function.update_of_ne hk]
        exact h
    · rw [Function.update_of_ne hd]
      exact h
  · show Function.update s.bit dev (Function.update (s.bit dev) j true) dev j = true
    rw [Function.update_self, Function.update_self]

/-- A slot is emptied. -/
theorem Table.clear (T : Table s) {i : Nat} {x : Slot} (hx : x.dev = 0) :
    Table (s.setFree i x) := by
  have hkey : ∀ j, ((s.setFree i x).inode j).dev ≠ 0 → j ≠ i ∧ (s.setFree i x).inode j = s.inode j := by
    intro j hne
    have hji : j ≠ i := by
      rintro rfl
      refine hne ?_
      show (Function.update s.inode j x j).dev = 0
      rw [Function.update_self, hx]
    exact ⟨hji, Function.update_of_ne hji ..⟩
  constructor
  · intro a b ha hb hne hdev hnum
    have hne' : ((s.setFree i x).inode b).dev ≠ 0 := by
      rw [← hdev]
      exact hne
    have hsa := (hkey a hne).2
    rw [hsa] at hne hdev hnum
    rw [(hkey b hne').2] at hdev hnum
    exact T.unique a b ha hb hne hdev hnum
  · intro a ha hne
    have hsa := (hkey a hne).2
    rw [hsa] at hne ⊢
    exact T.alloc a ha hne

/-- An inode is freed: its slot is emptied, so no slot has it. -/
theorem Table.free (T : Table s) {i dev nr : Nat} (hi : i < nrInode)
    (hdev : (s.inode i).dev = dev) (hnum : (s.inode i).num = nr) :
    Table { s.setFree i Slot.zero with
      bit := Function.update s.bit dev (Function.update (s.bit dev) nr false) } := by
  have hclear : Table (s.setFree i Slot.zero) := T.clear rfl
  refine ⟨hclear.unique, ?_⟩
  intro a ha hna
  have hai : a ≠ i := by
    rintro rfl
    refine hna ?_
    show (Function.update s.inode a Slot.zero a).dev = 0
    rw [Function.update_self]
    rfl
  have hslot : (s.setFree i Slot.zero).inode a = s.inode a := Function.update_of_ne hai ..
  show Function.update s.bit dev (Function.update (s.bit dev) nr false)
    ((s.setFree i Slot.zero).inode a).dev ((s.setFree i Slot.zero).inode a).num = true
  have hna' : ((s.setFree i Slot.zero).inode a).dev ≠ 0 := hna
  rw [hslot] at hna' ⊢
  have hold := T.alloc a ha hna'
  by_cases hd : (s.inode a).dev = dev
  · rw [hd, Function.update_self]
    have hn : (s.inode a).num ≠ nr := by
      intro hn
      exact hai (T.unique a i ha hi hna' (hd.trans hdev.symm) (hn.trans hnum.symm))
    rw [Function.update_of_ne hn, ← hd]
    exact hold
  · rw [Function.update_of_ne hd]
    exact hold

/-! ## The procedures -/

/-- Nothing is known. -/
def Any (_ : Unit) (_ : State) : Prop := True

theorem stable_any : Stable tableContract Any := fun _ _ _ _ _ _ _ => trivial

theorem modify_keeps {f : State → State} (hf : ∀ s, Keeps s (f s)) :
    Holds tableContract n (Code.modify f) Any (fun _ => Any) := by
  refine holds_modify stable_any ?_
  intro G t s hi _
  exact ⟨trivial, (), hi.keeps (hf s), trivial⟩

theorem setInode_keeps (i : Nat) {f : State → Slot}
    (hf : ∀ s, (f s).dev = (s.inode i).dev ∧ (f s).num = (s.inode i).num) :
    Holds tableContract n (Code.modify fun s => s.setInode i (f s)) Any (fun _ => Any) :=
  modify_keeps fun s => keeps_setInode (hf s).1 (hf s).2

theorem setHead_keeps (b : Nat) (f : State → Buf) :
    Holds tableContract n (Code.modify fun s => s.setHead b (f s)) Any (fun _ => Any) :=
  modify_keeps fun _ => ⟨fun _ => rfl, fun _ => rfl, rfl⟩

theorem read_any {α : Type} (f : State → α) :
    Holds tableContract n (Code.read f : M α) Any (fun _ => Any) :=
  holds_read stable_any fun _ _ _ _ _ => trivial

theorem ask_any : Holds tableContract n (Code.ask : M Nat) Any (fun _ => Any) :=
  holds_ask stable_any fun _ _ _ _ _ _ => trivial

theorem sleep_any : Holds tableContract n (Code.sleep : M Unit) Any (fun _ => Any) :=
  holds_sleep fun _ => True

/-- A look that changes nothing. -/
theorem look_any {x : Tag} (hx : ∀ i, x ≠ .reuse i) :
    Holds tableContract n (Code.atom x id : M Unit) Any (fun _ => Any) := by
  refine holds_atom stable_any ?_
  intro G t s hi _ _
  refine ⟨?_, (), hi, trivial⟩
  cases x with
  | reuse i => exact absurd rfl (hx i)
  | wait t i => trivial
  | flush t => trivial
  | install i dev nr => trivial

theorem pure_any {α : Type} (a : α) : Holds tableContract n (pure a : M α) Any (fun _ => Any) :=
  holds_pure fun _ _ _ _ _ => trivial

/-- The slots a procedure is given are slots of the table. -/
def InTable : Proc → Prop
  | .scan _ _ _ empty => empty < nrInode
  | .put _ i => i < nrInode
  | _ => True

def Before (p : Proc) (_ : Unit) (_ : Unit) (_ : State) : Prop := InTable p

/-- `get_empty_inode` gives a slot of the table. -/
def After : Proc → Unit → Ret → Unit → State → Prop
  | .empty _, _, r, _, _ => ∀ e, r = some e → e < nrInode
  | _, _, _, _, _ => True

theorem stable_before (p : Proc) (u : Unit) : Stable tableContract (Before p u) :=
  fun _ _ _ _ _ h _ => h

section Procedures

variable (hcall : ∀ p u, Holds tableContract n (Code.call p) (Before p u) (After p u))
include hcall

/-- A call whose result is not looked at. -/
theorem call_any {p : Proc} (hp : InTable p) :
    Holds tableContract n (Code.call p : M Ret) Any (fun _ => Any) :=
  (hcall p ()).conseq (fun _ _ _ => hp) fun _ _ _ _ => trivial

theorem waitOnBuffer_any (b : Nat) :
    Holds tableContract n (waitOnBuffer b) Any (fun _ => Any) :=
  holds_bind (call_any hcall trivial) fun _ => pure_any _

theorem waitOnInode_any (t i : Nat) :
    Holds tableContract n (waitOnInode t i) Any (fun _ => Any) :=
  holds_bind (call_any hcall trivial) fun _ => pure_any _

theorem lockInode_any (t i : Nat) : Holds tableContract n (lockInode t i) Any (fun _ => Any) := by
  refine holds_bind (waitOnInode_any hcall t i) fun _ => modify_keeps fun s => ?_
  have h := keeps_setInode (s := s) (i := i) (x := { s.inode i with lock := true }) rfl rfl
  exact ⟨h.dev, h.num, h.bit⟩

omit hcall in
theorem unlockInode_any (i : Nat) : Holds tableContract n (unlockInode i) Any (fun _ => Any) := by
  refine modify_keeps fun s => ?_
  have h := keeps_setInode (s := s) (i := i) (x := { s.inode i with lock := false }) rfl rfl
  exact ⟨h.dev, h.num, h.bit⟩

theorem llRwBlock_any (write : Bool) (b : Nat) :
    Holds tableContract n (llRwBlock write b) Any (fun _ => Any) := by
  refine holds_bind (waitOnBuffer_any hcall b) fun _ => holds_bind (read_any _) fun x => ?_
  refine holds_when (fun _ => ?_) fun _ _ _ _ _ _ => trivial
  exact holds_bind sleep_any fun _ => setHead_keeps b _

theorem pass_table (dev : Option Nat) (b : Nat) :
    Holds tableContract n (passBody dev b) Any (fun _ => Any) := by
  refine holds_bind (read_any _) fun more => ?_
  refine holds_ite (fun _ => ?_) fun _ => pure_any _
  refine holds_bind (read_any _) fun here => ?_
  refine holds_ite (fun _ => ?_) fun _ => call_any hcall trivial
  refine holds_bind (waitOnBuffer_any hcall b) fun _ => holds_bind (read_any _) fun dirt => ?_
  refine holds_bind (holds_when (fun _ => llRwBlock_any hcall true b) fun _ _ _ _ _ _ => trivial)
    fun _ => ?_
  exact call_any hcall trivial

theorem syncDev_any (t dev : Nat) : Holds tableContract n (syncDev t dev) Any (fun _ => Any) := by
  refine holds_bind (call_any hcall trivial) fun _ => ?_
  refine holds_bind (call_any hcall trivial) fun _ => ?_
  exact holds_bind (call_any hcall trivial) fun _ => pure_any _

theorem getblk_table (t dev block : Nat) :
    Holds tableContract n (getblkBody t dev block) Any (fun _ => Any) := by
  refine holds_bind (read_any _) fun found => ?_
  cases found with
  | some b =>
    refine holds_bind (setHead_keeps b _) fun _ => holds_bind (waitOnBuffer_any hcall b) fun _ => ?_
    refine holds_bind (read_any _) fun same => holds_ite (fun _ => pure_any _) fun _ => ?_
    exact holds_bind (setHead_keeps b _) fun _ => call_any hcall trivial
  | none =>
    refine holds_bind (read_any _) fun best => ?_
    cases best with
    | none => exact holds_bind sleep_any fun _ => call_any hcall trivial
    | some b => exact holds_bind (waitOnBuffer_any hcall b) fun _ => call_any hcall trivial

theorem clean_table (t dev block b : Nat) :
    Holds tableContract n (cleanBody t dev block b) Any (fun _ => Any) := by
  refine holds_bind (read_any _) fun x => ?_
  refine holds_ite (fun _ => call_any hcall trivial) fun _ => ?_
  refine holds_ite (fun _ => ?_) fun _ => ?_
  · refine holds_bind (look_any fun _ h => by cases h) fun _ => ?_
    refine holds_bind (syncDev_any hcall t x.dev) fun _ => ?_
    exact holds_bind (waitOnBuffer_any hcall b) fun _ => call_any hcall trivial
  · refine holds_bind (read_any _) fun found => ?_
    cases found with
    | some c => exact call_any hcall trivial
    | none =>
      refine holds_bind (modify_keeps fun _ => ?_) fun _ => pure_any _
      exact ⟨fun _ => rfl, fun _ => rfl, rfl⟩

theorem brelse_any (b : Nat) : Holds tableContract n (brelse b) Any (fun _ => Any) := by
  refine holds_bind (waitOnBuffer_any hcall b) fun _ => holds_bind (read_any _) fun count => ?_
  exact holds_ite (fun _ => holds_panic) fun _ => setHead_keeps b _

theorem bread_any (t dev block : Nat) :
    Holds tableContract n (bread t dev block) Any (fun _ => Any) := by
  refine holds_bind (call_any hcall trivial) fun found => ?_
  cases found with
  | none => exact holds_panic
  | some b =>
    refine holds_bind (read_any _) fun uptodate => holds_ite (fun _ => pure_any _) fun _ => ?_
    refine holds_bind (llRwBlock_any hcall false b) fun _ => ?_
    refine holds_bind (waitOnBuffer_any hcall b) fun _ => ?_
    refine holds_bind (read_any _) fun uptodate => holds_ite (fun _ => pure_any _) fun _ => ?_
    exact holds_bind (brelse_any hcall b) fun _ => pure_any _

theorem withBlock_any (t i : Nat) {x : Nat → M Unit}
    (hx : ∀ b, Holds tableContract n (x b) Any (fun _ => Any)) :
    Holds tableContract n (withBlock t i x) Any (fun _ => Any) := by
  refine holds_bind ask_any fun super => holds_ite (fun _ => holds_panic) fun _ => ?_
  refine holds_bind (read_any _) fun dev => holds_bind (read_any _) fun block => ?_
  refine holds_bind (bread_any hcall t dev block) fun bh => ?_
  cases bh with
  | none => exact holds_panic
  | some b =>
    refine holds_bind (hx b) fun _ => holds_bind (brelse_any hcall b) fun _ => ?_
    exact unlockInode_any i

theorem readInode_any (t i : Nat) : Holds tableContract n (readInode t i) Any (fun _ => Any) := by
  refine holds_bind (lockInode_any hcall t i) fun _ => withBlock_any hcall t i fun b => ?_
  refine holds_bind ask_any fun nlinks => holds_bind ask_any fun blk => ?_
  exact setInode_keeps i fun _ => ⟨rfl, rfl⟩

theorem writeInode_any (t i : Nat) : Holds tableContract n (writeInode t i) Any (fun _ => Any) := by
  refine holds_bind (lockInode_any hcall t i) fun _ => holds_bind (read_any _) fun x => ?_
  refine holds_ite (fun _ => unlockInode_any i) fun _ => withBlock_any hcall t i fun b => ?_
  exact holds_bind (setHead_keeps b _) fun _ => setInode_keeps i fun _ => ⟨rfl, rfl⟩

theorem syncInodes_table (t i : Nat) :
    Holds tableContract n (syncInodesBody t i) Any (fun _ => Any) := by
  refine holds_ite (fun _ => ?_) fun _ => pure_any _
  refine holds_bind (waitOnInode_any hcall t i) fun _ => holds_bind (read_any _) fun x => ?_
  refine holds_bind (holds_when (fun _ => writeInode_any hcall t i) fun _ _ _ _ _ _ => trivial)
    fun _ => ?_
  exact call_any hcall trivial

theorem written_table (t i : Nat) :
    Holds tableContract n (writtenBody t i) Any (fun _ => Any) := by
  refine holds_bind (read_any _) fun dirt => holds_ite (fun _ => ?_) fun _ => pure_any _
  refine holds_bind (writeInode_any hcall t i) fun _ => ?_
  exact holds_bind (waitOnInode_any hcall t i) fun _ => call_any hcall trivial

omit hcall in
theorem lookEmpty_lt {inode : Nat → Slot} {m last i : Nat} {found : Option Nat}
    (hfound : ∀ j, found = some j → j < nrInode) (h : (lookEmpty inode m last found).2 = some i) :
    i < nrInode := by
  have hmod : ∀ x, x % nrInode < nrInode := fun x => Nat.mod_lt x (by decide)
  induction m generalizing last found with
  | zero => exact hfound i h
  | succ m ih =>
    have hhere : ∀ j, some ((last + 1) % nrInode) = some j → j < nrInode := by
      intro j hj
      cases hj
      exact hmod _
    unfold lookEmpty at h
    dsimp only at h
    split at h
    · split at h
      · exact hhere i h
      · exact ih hhere h
    · exact ih hfound h

theorem empty_table (t : Nat) (u : Unit) :
    Holds tableContract n (emptyBody t) (Before (.empty t) u) (After (.empty t) u) := by
  unfold emptyBody
  refine holds_bind (R := fun p _ _ => ∀ i, p.2 = some i → i < nrInode)
    (holds_read (stable_before _ u) ?_) fun p => ?_
  · intro G t s _ _ i hi
    exact lookEmpty_lt (fun _ h => by cases h) hi
  obtain ⟨last, found⟩ := p
  refine holds_fact (p := ∀ i, found = some i → i < nrInode) (fun hlt => ?_) fun _ _ h => h
  refine holds_bind (R := fun _ => Any) ((modify_keeps fun _ => ?_).pre fun _ _ _ => trivial) fun _ => ?_
  · exact ⟨fun _ => rfl, fun _ => rfl, rfl⟩
  cases found with
  | none => exact holds_panic
  | some i =>
    refine holds_bind (waitOnInode_any hcall t i) fun _ => ?_
    refine holds_bind (call_any hcall trivial) fun _ => ?_
    refine holds_bind (holds_read (Q := fun count _ s => (s.inode i).count = count) stable_any
      fun _ _ _ _ _ => rfl) fun count => ?_
    refine holds_ite (fun _ => ?_) fun hcount => ?_
    · exact (hcall (.empty t) ()).pre fun _ _ _ => trivial
    refine holds_bind (R := fun _ => Any) (holds_atom ?_ ?_) fun _ => ?_
    · rintro G x s s' - hs ⟨B, y, hy, rfl⟩
      exact (hy i).2.2.1.trans hs
    · intro G x s hi hs _
      have hzero : (s.inode i).count = 0 := by omega
      exact ⟨hzero, (), hi.clear rfl, trivial⟩
    · refine holds_pure fun _ _ _ _ _ e he => ?_
      cases he
      exact hlt i rfl

omit hcall in
theorem freeInode_any {i : Nat} (hi : i < nrInode) :
    Holds tableContract n (freeInode i) Any (fun _ => Any) := by
  unfold freeInode
  let R (x : Slot) (_ : Unit) (s : State) : Prop :=
    (s.inode i).dev = x.dev ∧ (s.inode i).num = x.num
  have hst : ∀ x, Stable tableContract (R x) := by
    rintro x G t s s' - hs ⟨B, y, hy, rfl⟩
    exact ⟨(hy i).1.trans hs.1, (hy i).2.1.trans hs.2⟩
  refine holds_bind (R := R) (holds_read stable_any fun _ _ _ _ _ => ⟨rfl, rfl⟩) fun x => ?_
  refine holds_ite (fun _ => ?_) fun hdev => ?_
  · refine holds_modify (hst x) ?_
    intro G t s hT _
    exact ⟨trivial, (), hT.clear rfl, trivial⟩
  refine holds_ite (fun _ => holds_panic) fun _ => ?_
  refine holds_bind (holds_ask (Q := fun _ => R x) (hst x) fun _ _ _ _ _ h => h) fun ok => ?_
  refine holds_ite (fun _ => holds_panic) fun _ => ?_
  refine holds_modify (hst x) ?_
  intro G t s hT hx
  exact ⟨trivial, (), hT.free hi hx.1 hx.2, trivial⟩

omit hcall in
theorem dropCount_any (i : Nat) :
    Holds tableContract n (Code.modify fun s => s.dropCount i) Any (fun _ => Any) :=
  setInode_keeps i fun _ => ⟨rfl, rfl⟩

theorem put_table (t : Nat) {i : Nat} (hi : i < nrInode) :
    Holds tableContract n (putBody t i) Any (fun _ => Any) := by
  refine holds_bind (read_any _) fun x => ?_
  refine holds_ite (fun _ => holds_bind (dropCount_any i) fun _ => pure_any _) fun _ => ?_
  refine holds_ite (fun _ => ?_) fun _ => ?_
  · refine holds_bind sleep_any fun _ => ?_
    exact holds_bind (freeInode_any hi) fun _ => pure_any _
  refine holds_ite (fun _ => ?_) fun _ => holds_bind (dropCount_any i) fun _ => pure_any _
  refine holds_bind (writeInode_any hcall t i) fun _ => ?_
  exact holds_bind (waitOnInode_any hcall t i) fun _ => call_any hcall hi

theorem iput_any (t : Nat) {i : Nat} (hi : i < nrInode) :
    Holds tableContract n (iput t i) Any (fun _ => Any) := by
  have hput : Holds tableContract n
      (do let _ ← Code.call (.put t i)
          return () : M Unit) Any (fun _ => Any) :=
    holds_bind (call_any hcall hi) fun _ => pure_any _
  refine holds_bind (waitOnInode_any hcall t i) fun _ => holds_bind (read_any _) fun x => ?_
  refine holds_ite (fun _ => holds_panic) fun _ => ?_
  refine holds_ite (fun _ => ?_) fun _ => ?_
  · refine holds_ite (fun _ => dropCount_any i) fun _ => ?_
    exact setInode_keeps i fun _ => ⟨rfl, rfl⟩
  refine holds_ite (fun _ => dropCount_any i) fun _ => ?_
  cases x.blk with
  | none => exact hput
  | some dev =>
    refine holds_bind (syncDev_any hcall t dev) fun _ => ?_
    exact holds_bind (waitOnInode_any hcall t i) fun _ => hput

omit hcall in
/-- What `iget` finds is a slot of the table. -/
theorem lookup_lt {inode : Nat → Slot} {dev nr i : Nat} (h : lookup inode dev nr = some i) :
    i < nrInode := List.mem_range.mp (List.mem_of_find?_eq_some h)

/-- `iget`: when no slot has the inode, it is installed without a sleep. -/
theorem scan_table (t dev nr : Nat) {empty : Nat} (he : empty < nrInode) :
    Holds tableContract n (scanBody t dev nr empty) Any (fun _ => Any) := by
  unfold scanBody
  refine holds_bind (holds_read (Q := fun found _ s => lookup s.inode dev nr = found) stable_any
    fun _ _ _ _ _ => rfl) fun found => ?_
  cases found with
  | none =>
    refine holds_bind (R := fun _ => Any) (holds_atom ?_ ?_) fun _ => ?_
    · rintro G x s s' - hs ⟨B, y, hy, rfl⟩
      have hsame : lookup y dev nr = lookup s.inode dev nr := by
        unfold lookup
        congr 1
        funext i
        rw [(hy i).1, (hy i).2.1]
      exact hsame.trans hs
    · intro G x s hT hnone hbit
      exact ⟨trivial, (), hT.install hnone hbit, trivial⟩
    · exact holds_bind (readInode_any hcall t empty) fun _ => pure_any _
  | some i =>
    refine holds_fact (p := i < nrInode) (fun hi => ?_) fun _ _ h => lookup_lt h
    refine holds_bind ((waitOnInode_any hcall t i).pre fun _ _ _ => trivial) fun _ => ?_
    refine holds_bind (read_any _) fun x => ?_
    refine holds_ite (fun _ => call_any hcall he) fun _ => ?_
    refine holds_bind (setInode_keeps i fun _ => ⟨rfl, rfl⟩) fun _ => ?_
    cases x.mounted with
    | some d => exact holds_bind (iput_any hcall t hi) fun _ => call_any hcall he
    | none => exact holds_bind (iput_any hcall t he) fun _ => pure_any _

end Procedures

/-- Every procedure keeps the table. -/
theorem call_table (n : Nat) (p : Proc) (u : Unit) :
    Holds tableContract n (Code.call p) (Before p u) (After p u) := by
  refine holds_call (fun p u => stable_before p u) ?_ n p u
  intro m hcall q v
  have hany : ∀ {x : M Ret} {q : Proc}, (∀ r g s, After q v r g s) →
      Holds tableContract m x Any (fun _ => Any) → Holds tableContract m x (Before q v) (After q v) :=
    fun hq hx => hx.conseq (fun _ _ _ => trivial) fun r g s _ => hq r g s
  cases q with
  | waitOnBuffer b =>
    refine hany (fun _ _ _ => trivial) ?_
    refine holds_bind (read_any _) fun lock => holds_ite (fun _ => ?_) fun _ => pure_any _
    exact holds_bind sleep_any fun _ => call_any hcall trivial
  | waitOnInode t i =>
    refine hany (fun _ _ _ => trivial) ?_
    refine holds_bind (look_any fun _ h => by cases h) fun _ => ?_
    refine holds_bind (read_any _) fun lock => holds_ite (fun _ => ?_) fun _ => pure_any _
    exact holds_bind sleep_any fun _ => call_any hcall trivial
  | getblk t dev block => exact hany (fun _ _ _ => trivial) (getblk_table hcall t dev block)
  | clean t dev block b => exact hany (fun _ _ _ => trivial) (clean_table hcall t dev block b)
  | pass dev b => exact hany (fun _ _ _ => trivial) (pass_table hcall dev b)
  | syncInodes t i => exact hany (fun _ _ _ => trivial) (syncInodes_table hcall t i)
  | empty t => exact empty_table hcall t v
  | written t i => exact hany (fun _ _ _ => trivial) (written_table hcall t i)
  | scan t dev nr empty =>
    refine holds_fact (p := empty < nrInode) (fun he => ?_) fun _ _ h => h
    exact hany (fun _ _ _ => trivial) (scan_table hcall t dev nr he)
  | put t i =>
    refine holds_fact (p := i < nrInode) (fun hi => ?_) fun _ _ h => h
    exact hany (fun _ _ _ => trivial) (put_table hcall t hi)

/-! ## The calls -/

theorem getEmptyInode_table (t : Nat) :
    Holds tableContract n (getEmptyInode t) Any (fun r _ _ => ∀ e, r = some e → e < nrInode) :=
  (call_table n (.empty t) ()).pre fun _ _ _ => trivial

theorem iget_table (t dev nr : Nat) : Holds tableContract n (iget t dev nr) Any (fun _ => Any) := by
  refine holds_ite (fun _ => holds_panic) fun _ => ?_
  refine holds_bind (getEmptyInode_table t) fun empty => ?_
  cases empty with
  | none => exact holds_pure fun _ _ _ _ _ => trivial
  | some e =>
    refine holds_fact (p := e < nrInode) (fun he => ?_) fun _ _ h => h e rfl
    exact (call_any (p := .scan t dev nr e) (call_table n) he).pre fun _ _ _ => trivial

theorem newInode_table (t : Nat) {dev : Nat} (hdev : dev ≠ 0) :
    Holds tableContract n (newInode t dev) Any (fun _ => Any) := by
  refine holds_bind (getEmptyInode_table t) fun empty => ?_
  cases empty with
  | none => exact holds_pure fun _ _ _ _ _ => trivial
  | some e =>
    refine holds_fact (p := e < nrInode) (fun he => ?_) fun _ _ h => h e rfl
    refine holds_bind (R := fun _ => Any) (ask_any.pre fun _ _ _ => trivial) fun super => ?_
    refine holds_ite (fun _ => holds_panic) fun _ => ?_
    refine holds_bind (holds_read (Q := fun j _ s => freeBit s dev = j) stable_any
      fun _ _ _ _ _ => rfl) fun j => ?_
    cases j with
    | none =>
      refine holds_bind ((iput_any (call_table n) t he).pre fun _ _ _ => trivial) fun _ => ?_
      exact pure_any _
    | some j =>
      refine holds_bind (R := fun _ => Any) (holds_modify ?_ ?_) fun _ => pure_any _
      · rintro G x s s' - hs ⟨B, y, -, rfl⟩
        exact hs
      · intro G x s hT hfree
        have hbit : s.bit dev j = false := by simpa using List.find?_some hfree
        exact ⟨trivial, (), hT.create hdev hbit ⟨rfl, rfl⟩, trivial⟩

theorem starts_table : Starts tableContract := by
  intro t p hp G s hi _
  have hstart : ∀ {α : Type} {x : M α}, (∀ n, Holds tableContract n x Any (fun _ => Any)) →
      Begins tableContract t G s x.toProg := by
    intro α x hx
    exact Holds.begins (g := ()) hx hi (fun _ => trivial) fun _ _ _ _ _ _ => trivial
  cases hp with
  | iget dev nr => exact hstart fun n => iget_table t dev nr
  | newInode dev hdev => exact hstart fun n => newInode_table t hdev
  | iput i hlt => exact hstart fun n => iput_any (call_table n) t hlt
  | sysSync =>
    refine hstart fun n => holds_bind (call_any (call_table n) trivial) fun _ => ?_
    exact holds_bind (call_any (call_table n) trivial) fun _ => pure_any _
  | syncDev dev => exact hstart fun n => syncDev_any (call_table n) t dev

/-- **Inodes in core are unique.** However `iget`, `new_inode`, `iput` and the syncs
interleave, if `iget` installs no inode whose bit is clear, then no two slots have
one inode, and `get_empty_inode` clears no slot that is in use. -/
theorem inodes_unique {s : State} (h0 : Table s) {c : Config State Tag Proc Ret}
    (h : kernel.Reach allocated (Config.idle s) c) :
    UniqueKeys c.shared ∧
      ∀ t i u next, c.running = some t → c.tasks t = .act (some (.reuse i)) u next →
        (c.shared.inode i).count = 0 := by
  obtain ⟨G, hG⟩ := reach_idle (G := fun _ => ()) (C := tableContract) starts_table h0
    (fun _ => trivial) h
  refine ⟨hG.inv.unique, ?_⟩
  intro t i u next hr ht
  exact hG.check hr ht fun x hx => by
    cases hx
    trivial

/-- A table with no inode in it. Device 1 has inodes 1 to 4; their block is in the
cache. -/
def emptyTable : State where
  inode := fun _ => Slot.zero
  last := 0
  bit := fun _ j => j < 5
  ninodes := fun _ => 10
  start := fun _ => 0
  buf := ⟨1, fun _ => ⟨1, 0, 0, false, false, true⟩, [0]⟩
  owner := fun _ => none

theorem table_emptyTable : Table emptyTable :=
  ⟨fun _ _ _ _ hne => absurd rfl hne, fun _ _ hne => absurd rfl hne⟩

/-- The condition of the runs, to be evaluated. -/
def isAllocated : Tag → State → Bool
  | .install _ dev nr, s => s.bit dev nr
  | _, _ => true

theorem allocated_of_isAllocated : ∀ x s, isAllocated x s = true → allocated x s := by
  intro x s h
  cases x with
  | install i dev nr => exact h
  | wait t i => trivial
  | flush t => trivial
  | reuse i => trivial

/-- `iget` of an inode, and a `new_inode` while it reads. -/
def igetThenNew (nr : Nat) : List (Move State Tag Proc Ret Unit) :=
  [.start 0 (iget 0 1 nr).toProg, .start 1 (newInode 1 1).toProg] ++ leg 0 [1, 1, 0] ++ leg 1 [1]

theorem igetThenNew_ops {nr : Nat} : ∀ q ∈ programs (igetThenNew nr), kernel.ops q.1 q.2 := by
  rintro q (_ | ⟨_, _ | ⟨_, ⟨⟩⟩⟩)
  · exact .iget 1 nr
  · exact .newInode 1 (by decide)

/-- `iget` of inode 3, then `new_inode`. -/
theorem inodes_unique_two :
    ∃ c, kernel.Reach allocated (Config.idle emptyTable) c ∧
      ((c.shared.inode 1).num = 3 ∧ (c.shared.inode 2).num = 5) ∧ UniqueKeys c.shared := by
  have hplay : ((kernel.play isAllocated (fun (_ : Unit) _ => none) (igetThenNew 3)
      (Config.idle emptyTable)).map fun c => decide ((c.shared.inode 1).num = 3 ∧
        (c.shared.inode 2).num = 5)) = some true := by decide +kernel
  obtain ⟨c, hreach, hslots⟩ := exists_reach allocated_of_isAllocated (by simp) igetThenNew_ops hplay
  exact ⟨c, hreach, of_decide_eq_true hslots, (inodes_unique table_emptyTable hreach).1⟩

/-- Inode 5 is free: `new_inode` takes it, and two slots have it. -/
theorem inode_twice :
    ¬ ∀ (s : State) (c : Config State Tag Proc Ret), Table s →
        kernel.Reach (fun _ _ => True) (Config.idle s) c →
        UniqueKeys c.shared ∧
          ∀ t i u next, c.running = some t → c.tasks t = .act (some (.reuse i)) u next →
            (c.shared.inode i).count = 0 := by
  intro hclaim
  have hplay : ((kernel.play (fun _ _ => true) (fun (_ : Unit) _ => none) (igetThenNew 5)
      (Config.idle emptyTable)).map fun c => decide ((c.shared.inode 1).dev = 1 ∧
        (c.shared.inode 1).num = 5 ∧ (c.shared.inode 2).dev = 1 ∧ (c.shared.inode 2).num = 5)) =
        some true := by decide +kernel
  obtain ⟨c, hreach, hslots⟩ := exists_reach (fun _ _ _ => trivial) (by simp) igetThenNew_ops hplay
  obtain ⟨hd1, hn1, hd2, hn2⟩ := of_decide_eq_true hslots
  have heq := (hclaim emptyTable c table_emptyTable hreach).1 1 2 (by decide) (by decide)
    (by rw [hd1]; decide) (hd1.trans hd2.symm) (hn1.trans hn2.symm)
  cases heq

end Linux011.Fs.Inodes
