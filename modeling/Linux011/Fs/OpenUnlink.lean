import Linux011.Fs.Unlink

/-!
# Inodes in use — `sys_open` beside `sys_unlink`

The kernel of `Fs.Unlink`, under another contract: the count of an inode is the
number of references to it, those of the calls in progress and those of the open
files. `iput` frees an inode only when its own reference is the last one, and
sleeps in `truncate` before it does. A task that takes the inode meanwhile is a
guest: it finds no links, and gives its reference back before it sleeps.

* `Counts.touch`, `Counts.visit`, `Counts.files`, `Counts.free` — the steps;
* `put_counts`, `get_counts`, `find_counts` — the procedures;
* `permission_counts` — what `permission` lets through is allocated;
* `open_unlink_safe` — the panics of `iput` and `free_inode` are not reached and
  every open file has an allocated inode, as long as `sys_open` takes no freed
  inode that shows links, and `sys_unlink` none that is being freed or was;
* `open_returns_freed` — a `sys_open` that does.
-/

namespace Linux011.Fs.Unlink

open Linux011.Lib Linux011.Lib.Kernel
open Linux011.Fs.Names (Name dot dirEntriesPerBlock)

/-! ## References -/

/-- What is known of an inode by having a reference to it: nothing, that it is
allocated, or that it has been freed and shows no links. -/
inductive Ref
  | plain
  | live
  | dead

/-- What a task in a call has: the references it took, the file slot it has taken,
the inode it is freeing, the inode being freed by another that it has found. -/
structure Hold where
  id     : Nat
  refs   : List (Key × Ref)
  fd     : Option Nat
  doomed : Option Key
  guest  : Option Key

def holds (g : Option Hold) (k : Key) : Nat :=
  match g with
  | some h => h.refs.countP fun r => r.1 = k
  | none => 0

/-- The references of all calls. -/
@[irreducible] def heldBy (G : Nat → Option Hold) (k : Key) : Nat :=
  ∑ t ∈ Finset.range nrTasks, holds (G t) k

/-- Those of the guests. -/
@[irreducible] def guests (G : Nat → Option Hold) (k : Key) : Nat :=
  refs (Finset.range nrTasks) (fun t => (G t).bind Hold.guest) k

/-- The file descriptors of all tasks. -/
@[irreducible] def descriptors : Finset (Nat × Nat) := Finset.range nrTasks ×ˢ Finset.range nrOpen

/-- The references of the open files. -/
@[irreducible] def fileRefs (filp : Nat → Nat → Option (Option Key)) (k : Key) : Nat :=
  refs descriptors (fun p => (filp p.1 p.2).join) k

/-- What a reference says is so. -/
def Held (s : State) (r : Key × Ref) : Prop :=
  match r.2 with
  | .plain => True
  | .live => s.freed r.1 = false
  | .dead => s.freed r.1 = true ∧ (s.inode r.1).nlinks = 0

/-- Counts are exact, but for the references `base` that are there from the
beginning and stay. An inode that is being freed has no other reference but those of
guests, and an open one has not been freed. -/
structure Counts (base : Key → Nat) (G : Nat → Option Hold) (s : State) : Prop where
  live    : ∀ t h, G t = some h → t < nrTasks ∧ h.id = t
  count   : ∀ k, (s.inode k).count = base k + heldBy G k + fileRefs s.filp k + guests G k
  doomed  : ∀ t h k, G t = some h → h.doomed = some k →
    s.freeing k = true ∧ (s.inode k).nlinks = 0 ∧ s.mode k ≠ .blk ∧
      base k + heldBy G k + fileRefs s.filp k = 1 ∧ 0 < holds (G t) k
  doomer  : ∀ k, s.freeing k = true → ∃ t h, G t = some h ∧ h.doomed = some k
  guest   : ∀ t h k, G t = some h → h.guest = some k → s.freeing k = true
  held    : ∀ t h, G t = some h → ∀ r ∈ h.refs, Held s r
  file    : ∀ t fd k, s.filp t fd = some (some k) → s.freed k = false ∧ t < nrTasks ∧ fd < nrOpen
  slot    : ∀ t h fd, G t = some h → h.fd = some fd → s.filp t fd = some none ∧ fd < nrOpen
  mounted : ∀ k r, s.mount k = some r → 0 < base k
  covered : ∀ d o, s.covered d = some o → 0 < base o
  going   : s.stopped = none ∨ s.stopped = some .other

/-- The condition of the runs: `sys_open` takes no freed inode that shows links, and
`sys_unlink` none that is being freed or has been. -/
def calm : Tag → State → Prop
  | .grab _ .dir _, _ => True
  | .grab k .opened nlinks, s => s.freed k = true → s.links k nlinks = 0
  | .grab k .unlinked _, s => s.freeing k = false ∧ s.freed k = false
  | .clear _ _ _, _ => True

def inUse (base : Key → Nat) : Contract kernel (Option Hold) where
  inv := Counts base
  allow := calm
  check := fun _ _ _ => True
  rest := fun g => ∀ h, g = some h →
    h.refs = [] ∧ h.fd = none ∧ h.doomed = none ∧ h.guest = none
  inv_env := fun _ _ _ _ h => h.elim
  reads := fun _ _ _ => trivial
  asleep := fun g => ∀ h, g = some h → h.guest = none
  rest_asleep := fun _ hg h hh => (hg h hh).2.2.2

variable {base : Key → Nat} {G : Nat → Option Hold} {s s' : State} {t : Nat} {k : Key} {h h' : Hold}

theorem heldBy_update (ht : t < nrTasks) (g : Option Hold) (k : Key) :
    heldBy (Function.update G t g) k + holds (G t) k = heldBy G k + holds g k := by
  have hsum := sum_update (Finset.mem_range.mpr ht) G g fun x => holds x k
  unfold heldBy
  exact hsum

theorem holds_le (G : Nat → Option Hold) (ht : t < nrTasks) (k : Key) :
    holds (G t) k ≤ heldBy G k := by
  have hle := Finset.single_le_sum (fun t _ => Nat.zero_le (holds (G t) k))
    (Finset.mem_range.mpr ht)
  unfold heldBy
  exact hle

theorem holds_add_le (G : Nat → Option Hold) {t' : Nat} (ht : t < nrTasks) (ht' : t' < nrTasks)
    (htt : t ≠ t') (k : Key) : holds (G t) k + holds (G t') k ≤ heldBy G k := by
  have hle := add_le_sum (Finset.mem_range.mpr ht) (Finset.mem_range.mpr ht') htt
    fun t => holds (G t) k
  unfold heldBy
  exact hle

theorem guests_update (ht : t < nrTasks) (g : Option Hold) (k : Key) :
    guests (Function.update G t g) k + (if (G t).bind Hold.guest = some k then 1 else 0) =
      guests G k + (if g.bind Hold.guest = some k then 1 else 0) := by
  have hcell : (fun x => (Function.update G t g x).bind Hold.guest) =
      Function.update (fun x => (G x).bind Hold.guest) t (g.bind Hold.guest) := by
    funext x
    by_cases hx : x = t
    · rw [hx, Function.update_self, Function.update_self]
    · rw [Function.update_of_ne hx, Function.update_of_ne hx]
  unfold guests
  rw [hcell]
  exact refs_update (Finset.mem_range.mpr ht) (g.bind Hold.guest) k

/-- The guests are the same if those of the task are. -/
theorem guests_update_eq (ht : t < nrTasks) (hg : G t = some h) (hguest : h'.guest = h.guest)
    (k : Key) : guests (Function.update G t (some h')) k = guests G k := by
  have hup := guests_update ht (some h') k (G := G)
  rw [hg, Option.bind_some, Option.bind_some, hguest] at hup
  exact Nat.add_right_cancel hup

theorem guests_eq_zero (hnone : ∀ t h, G t = some h → h.guest ≠ some k) : guests G k = 0 := by
  unfold guests
  refine refs_eq_zero_iff.mpr fun t _ ht => ?_
  obtain ⟨h, hg, hguest⟩ := Option.bind_eq_some_iff.mp ht
  exact hnone t h hg hguest

theorem guests_pos (ht : t < nrTasks) (hg : G t = some h) (hguest : h.guest = some k) :
    0 < guests G k := by
  unfold guests
  refine refs_pos_iff.mpr ⟨t, Finset.mem_range.mpr ht, ?_⟩
  rw [hg]
  exact hguest

theorem mem_descriptors {fd : Nat} (ht : t < nrTasks) (hfd : fd < nrOpen) :
    (t, fd) ∈ descriptors := by
  unfold descriptors
  simp only [Finset.mem_product, Finset.mem_range]
  exact ⟨ht, hfd⟩

theorem fileRefs_pos {filp : Nat → Nat → Option (Option Key)} {fd : Nat} (ht : t < nrTasks)
    (hfd : fd < nrOpen) (hk : filp t fd = some (some k)) : 0 < fileRefs filp k := by
  unfold fileRefs
  refine refs_pos_iff.mpr ⟨(t, fd), mem_descriptors ht hfd, ?_⟩
  dsimp only
  rw [hk]
  rfl

theorem setFilp_apply (s : State) (t fd : Nat) (f : Option (Option Key)) (t' fd' : Nat) :
    (s.setFilp t fd f).filp t' fd' = if t' = t ∧ fd' = fd then f else s.filp t' fd' := by
  unfold State.setFilp
  dsimp only
  by_cases ht : t' = t
  · subst ht
    by_cases hfd : fd' = fd
    · simp [hfd]
    · simp [hfd]
  · simp [ht]

theorem fileRefs_setFilp {fd : Nat} (ht : t < nrTasks) (hfd : fd < nrOpen)
    (f : Option (Option Key)) (k : Key) :
    fileRefs (s.setFilp t fd f).filp k + (if (s.filp t fd).join = some k then 1 else 0) =
      fileRefs s.filp k + (if f.join = some k then 1 else 0) := by
  have hcell : (fun p : Nat × Nat => ((s.setFilp t fd f).filp p.1 p.2).join) =
      Function.update (fun p : Nat × Nat => (s.filp p.1 p.2).join) (t, fd) f.join := by
    funext p
    rw [setFilp_apply]
    by_cases hp : p = (t, fd)
    · subst hp
      rw [Function.update_self, if_pos ⟨rfl, rfl⟩]
    · rw [Function.update_of_ne hp, if_neg fun h => hp (Prod.ext h.1 h.2)]
  unfold fileRefs
  rw [hcell]
  exact refs_update (mem_descriptors ht hfd) f.join k

theorem holds_pos {o : Ref} (hg : G t = some h) (hk : (k, o) ∈ h.refs) : 0 < holds (G t) k := by
  rw [hg]
  exact List.countP_pos_iff.mpr ⟨(k, o), hk, by simp⟩

/-- What a reference says depends on its own inode only. -/
theorem Held.congr {r : Key × Ref} (hr : Held s r) (hfreed : s'.freed r.1 = s.freed r.1)
    (hlinks : r.2 = .dead → (s'.inode r.1).nlinks = (s.inode r.1).nlinks) : Held s' r := by
  obtain ⟨v, o⟩ := r
  cases o with
  | plain => trivial
  | live => exact hfreed.trans hr
  | dead => exact ⟨hfreed.trans hr.1, (hlinks rfl).trans hr.2⟩

/-- An inode a task has, and is not freeing, is not being freed by another. -/
theorem Counts.alone (C : Counts base G s) (hg : G t = some h) (hd : h.doomed = none)
    (hk : 0 < holds (G t) k) {t' : Nat} (hg' : G t' = some h') : h'.doomed ≠ some k := by
  intro hd'
  have htt : t ≠ t' := by
    rintro rfl
    rw [hg] at hg'
    cases hg'
    rw [hd] at hd'
    cases hd'
  obtain ⟨-, -, -, hone, hheld⟩ := C.doomed t' h' k hg' hd'
  have h2 := holds_add_le G (C.live t h hg).1 (C.live t' h' hg').1 htt k
  omega

/-- An inode that is being freed is not one of those that stay. -/
theorem Counts.base_eq_zero (C : Counts base G s) (hk : s.freeing k = true) : base k = 0 := by
  obtain ⟨t, h, hg, hd⟩ := C.doomer k hk
  obtain ⟨-, -, -, hone, hheld⟩ := C.doomed t h k hg hd
  have h1 := holds_le G (C.live t h hg).1 k
  omega

/-- The ghosts of the others, and that of `t`. -/
theorem ghost_cases {t' : Nat} {x : Hold} (hx : Function.update G t (some h') t' = some x) :
    t' = t ∧ x = h' ∨ t' ≠ t ∧ G t' = some x := by
  by_cases htt : t' = t
  · rw [htt, Function.update_self] at hx
    exact Or.inl ⟨htt, (Option.some.inj hx).symm⟩
  · rw [Function.update_of_ne htt] at hx
    exact Or.inr ⟨htt, hx⟩

/-- An inode that is being freed is, by a task that is not `t`, when `t` does not. -/
theorem Counts.doomer_update (C : Counts base G s) (hg : G t = some h) (hd : h.doomed ≠ some k)
    (hk : s.freeing k = true) :
    ∃ t' x, Function.update G t (some h') t' = some x ∧ x.doomed = some k := by
  obtain ⟨t', x, hx, hdoom⟩ := C.doomer k hk
  have htt : t' ≠ t := by
    rintro rfl
    rw [hg] at hx
    cases hx
    exact hd hdoom
  exact ⟨t', x, by rw [Function.update_of_ne htt]; exact hx, hdoom⟩

/-- The parts of a state no reference depends on. -/
structure Beside (s s' : State) : Prop where
  mode    : s'.mode = s.mode
  mount   : s'.mount = s.mount
  covered : s'.covered = s.covered
  stopped : s'.stopped = s.stopped

/-- What the state gives a task in a call for what the task has. -/
structure Given (s : State) (t : Nat) (h : Hold) : Prop where
  guest : ∀ k, h.guest = some k → s.freeing k = true
  held  : ∀ r ∈ h.refs, Held s r
  slot  : ∀ fd, h.fd = some fd → s.filp t fd = some none ∧ fd < nrOpen

theorem Counts.given (C : Counts base G s) (hg : G t = some h) : Given s t h :=
  ⟨fun k => C.guest t h k hg, C.held t h hg, fun fd => C.slot t h fd hg⟩

/-- One task goes on: what the others have stays theirs. -/
theorem Counts.step (C : Counts base G s) (ht : t < nrTasks) (hid : h'.id = t)
    (hcount : ∀ k, (s'.inode k).count = base k + heldBy (Function.update G t (some h')) k +
      fileRefs s'.filp k + guests (Function.update G t (some h')) k)
    (hdoomed : ∀ t' x k, Function.update G t (some h') t' = some x → x.doomed = some k →
      s'.freeing k = true ∧ (s'.inode k).nlinks = 0 ∧ s'.mode k ≠ .blk ∧
        base k + heldBy (Function.update G t (some h')) k + fileRefs s'.filp k = 1 ∧
          0 < holds (Function.update G t (some h') t') k)
    (hdoomer : ∀ k, s'.freeing k = true →
      ∃ t' x, Function.update G t (some h') t' = some x ∧ x.doomed = some k)
    (hmine : Given s' t h')
    (hothers : ∀ t' x, t' ≠ t → G t' = some x → Given s t' x → Given s' t' x)
    (hfile : ∀ t' fd k, s'.filp t' fd = some (some k) →
      s'.freed k = false ∧ t' < nrTasks ∧ fd < nrOpen)
    (hbeside : Beside s s') :
    Counts base (Function.update G t (some h')) s' := by
  have hgiven : ∀ t' x, Function.update G t (some h') t' = some x → Given s' t' x := by
    intro t' x hx
    rcases ghost_cases hx with ⟨rfl, rfl⟩ | ⟨htt, hx⟩
    · exact hmine
    · exact hothers t' x htt hx (C.given hx)
  refine ⟨?_, hcount, hdoomed, hdoomer, fun t' x k hx => (hgiven t' x hx).guest k,
    fun t' x hx => (hgiven t' x hx).held, hfile, fun t' x fd hx => (hgiven t' x hx).slot fd,
    ?_, ?_, ?_⟩
  · intro t' x hx
    rcases ghost_cases hx with ⟨rfl, rfl⟩ | ⟨-, hx⟩
    · exact ⟨ht, hid⟩
    · exact C.live t' x hx
  · rw [hbeside.mount]
    exact C.mounted
  · rw [hbeside.covered]
    exact C.covered
  · rw [hbeside.stopped]
    exact C.going

/-- Task `t` changes inode `k`, which nobody is freeing, and the references it
has. -/
theorem Counts.touch (C : Counts base G s) (hg : G t = some h) (hid : h'.id = h.id)
    (hfd : h'.fd = h.fd) (hdoomed : h'.doomed = none) (hdoomed0 : h.doomed = none)
    (hguest : h'.guest = h.guest) (hnone : ∀ t' x, G t' = some x → x.doomed ≠ some k)
    (hinode : ∀ v, v ≠ k → s'.inode v = s.inode v)
    (hcount : ∀ v, (s'.inode v).count + holds (some h) v = (s.inode v).count + holds (some h') v)
    (hheld : ∀ r ∈ h'.refs, Held s' r)
    (hdead : ∀ t' x, t' ≠ t → G t' = some x → (k, Ref.dead) ∈ x.refs →
      (s'.inode k).nlinks = (s.inode k).nlinks)
    (hfreed : s'.freed = s.freed) (hfilp : s'.filp = s.filp) (hfreeing : s'.freeing = s.freeing)
    (hbeside : Beside s s') :
    Counts base (Function.update G t (some h')) s' := by
  obtain ⟨ht, hid0⟩ := C.live t h hg
  have hsum : ∀ v, heldBy (Function.update G t (some h')) v + holds (some h) v =
      heldBy G v + holds (some h') v := by
    intro v
    have h1 := heldBy_update ht (some h') v (G := G)
    rw [hg] at h1
    exact h1
  refine C.step ht (hid.trans hid0) ?_ ?_ ?_ ?_ ?_ ?_ hbeside
  · intro v
    have h1 := hsum v
    have h2 := hcount v
    have h3 := C.count v
    rw [hfilp, guests_update_eq ht hg hguest]
    omega
  · intro t' x v hx hv
    rcases ghost_cases hx with ⟨rfl, rfl⟩ | ⟨htt, hx⟩
    · rw [hdoomed] at hv
      cases hv
    · have hvk : v ≠ k := by
        rintro rfl
        exact hnone t' x hx hv
      obtain ⟨h1, h2, h3, h4, h5⟩ := C.doomed t' x v hx hv
      have h6 := hsum v
      have h7 := hcount v
      rw [hinode v hvk] at h7
      rw [hfreeing, hinode v hvk, hbeside.mode, hfilp, Function.update_of_ne htt]
      exact ⟨h1, h2, h3, by omega, h5⟩
  · intro v hv
    rw [hfreeing] at hv
    exact C.doomer_update hg (by rw [hdoomed0]; simp) hv
  · have hgiven := C.given hg
    refine ⟨fun v hv => ?_, hheld, fun fd hv => ?_⟩
    · rw [hfreeing]
      exact hgiven.guest v (hguest ▸ hv)
    · rw [hfilp]
      exact hgiven.slot fd (hfd ▸ hv)
  · intro t' x htt hx hgiven
    refine ⟨fun v hv => ?_, fun r hr => ?_, fun fd hv => ?_⟩
    · rw [hfreeing]
      exact hgiven.guest v hv
    · refine (hgiven.held r hr).congr (congrFun hfreed r.1) ?_
      intro hd
      by_cases hrk : r.1 = k
      · rw [hrk]
        exact hdead t' x htt hx (by rw [← hrk, ← hd]; exact hr)
      · rw [hinode r.1 hrk]
    · rw [hfilp]
      exact hgiven.slot fd hv
  · rw [hfreed, hfilp]
    exact C.file

/-- Task `t` becomes a guest of inode `k`, or leaves it. -/
theorem Counts.visit (C : Counts base G s) (hg : G t = some h) {g : Option Key}
    (hk : s.freeing k = true) (hguest : h.guest = none ∨ h.guest = some k)
    (hguest' : g = none ∨ g = some k) {x : Inode} (hlinks : x.nlinks = (s.inode k).nlinks)
    (hcount : x.count + (if h.guest = some k then 1 else 0) =
      (s.inode k).count + (if g = some k then 1 else 0)) :
    Counts base (Function.update G t (some { h with guest := g }))
      { s with inode := Function.update s.inode k x } := by
  obtain ⟨ht, hid0⟩ := C.live t h hg
  have hheld : ∀ v, heldBy (Function.update G t (some { h with guest := g })) v = heldBy G v := by
    intro v
    have h1 := heldBy_update ht (some { h with guest := g }) v (G := G)
    rw [hg] at h1
    exact Nat.add_right_cancel h1
  have hnlinks : ∀ v, (Function.update s.inode k x v).nlinks = (s.inode v).nlinks := by
    intro v
    by_cases hv : v = k
    · rw [hv, Function.update_self, hlinks]
    · rw [Function.update_of_ne hv]
  have hdoomed : ∀ {t' : Nat} {y : Hold}, Function.update G t (some { h with guest := g }) t' = some y →
      ∃ z, G t' = some z ∧ z.doomed = y.doomed := by
    intro t' y hy
    rcases ghost_cases hy with ⟨rfl, rfl⟩ | ⟨-, hy⟩
    · exact ⟨h, hg, rfl⟩
    · exact ⟨y, hy, rfl⟩
  have hholds : ∀ t' v, holds (Function.update G t (some { h with guest := g }) t') v =
      holds (G t') v := by
    intro t' v
    by_cases htt : t' = t
    · rw [htt, Function.update_self, hg]
      rfl
    · rw [Function.update_of_ne htt]
  have hsame : ∀ r, Held s r →
      Held { s with inode := Function.update s.inode k x } r :=
    fun r hr => hr.congr rfl fun _ => hnlinks r.1
  refine C.step ht hid0 ?_ ?_ ?_ ?_ ?_ C.file ⟨rfl, rfl, rfl, rfl⟩
  · intro v
    have h1 := guests_update ht (some { h with guest := g }) v (G := G)
    rw [hg, Option.bind_some, Option.bind_some] at h1
    dsimp only at h1
    have h2 := C.count v
    rw [hheld]
    show (Function.update s.inode k x v).count = _ + _ + fileRefs s.filp v + _
    by_cases hv : v = k
    · subst hv
      rw [Function.update_self]
      omega
    · have hne : ¬ h.guest = some v := by
        rcases hguest with hn | hn <;> rw [hn] <;> simp [Ne.symm hv]
      have hne' : ¬ g = some v := by
        rcases hguest' with hn | hn <;> rw [hn] <;> simp [Ne.symm hv]
      rw [if_neg hne, if_neg hne'] at h1
      rw [Function.update_of_ne hv]
      omega
  · intro t' y v hy hv
    obtain ⟨z, hz, hd⟩ := hdoomed hy
    obtain ⟨h1, h2, h3, h4, h5⟩ := C.doomed t' z v hz (hd.trans hv)
    rw [hheld, hholds]
    exact ⟨h1, (hnlinks v).trans h2, h3, h4, h5⟩
  · intro v hv
    obtain ⟨t', y, hy, hd⟩ := C.doomer v hv
    by_cases htt : t' = t
    · subst htt
      rw [hg] at hy
      cases hy
      exact ⟨t', _, Function.update_self .., hd⟩
    · exact ⟨t', y, by rw [Function.update_of_ne htt]; exact hy, hd⟩
  · have hgiven := C.given hg
    refine ⟨fun v hv => ?_, fun r hr => hsame r (hgiven.held r hr), hgiven.slot⟩
    rcases hguest' with rfl | rfl
    · cases hv
    · cases hv
      exact hk
  · exact fun t' y _ _ hgiven =>
      ⟨hgiven.guest, fun r hr => hsame r (hgiven.held r hr), hgiven.slot⟩

/-- The call that sees the last link gone: its reference is the only one. -/
theorem Counts.doom (C : Counts base G s) {L : List (Key × Ref)} {id : Nat} {fd : Option Nat}
    (hg : G t = some ⟨id, L, fd, none, none⟩) (hk : 0 < holds (G t) k)
    (hcount : ¬ (s.inode k).count > 1) (hlinks : (s.inode k).nlinks = 0) (hmode : s.mode k ≠ .blk) :
    Counts base (Function.update G t (some ⟨id, L, fd, some k, none⟩))
      { s with freeing := Function.update s.freeing k true } := by
  obtain ⟨ht, hid⟩ := C.live t _ hg
  have hheld : ∀ v, heldBy (Function.update G t (some ⟨id, L, fd, some k, none⟩)) v = heldBy G v := by
    intro v
    have h1 := heldBy_update ht (some ⟨id, L, fd, some k, none⟩) v (G := G)
    rw [hg] at h1
    exact Nat.add_right_cancel h1
  have hone : base k + heldBy G k + fileRefs s.filp k = 1 := by
    have h1 := holds_le G ht k
    have h2 := C.count k
    omega
  have hfreeing : ∀ v, s.freeing v = true → Function.update s.freeing k true v = true := by
    intro v hv
    by_cases hvk : v = k
    · rw [hvk, Function.update_self]
    · rw [Function.update_of_ne hvk]
      exact hv
  refine C.step ht hid ?_ ?_ ?_ ?_ ?_ C.file ⟨rfl, rfl, rfl, rfl⟩
  · intro v
    rw [hheld, guests_update_eq ht hg (by rfl)]
    exact C.count v
  · intro t' x v hx hv
    rw [hheld]
    rcases ghost_cases hx with ⟨rfl, rfl⟩ | ⟨htt, hx⟩
    · cases hv
      rw [Function.update_self]
      rw [hg] at hk
      exact ⟨Function.update_self .., hlinks, hmode, hone, hk⟩
    · obtain ⟨h1, h2⟩ := C.doomed t' x v hx hv
      rw [Function.update_of_ne htt]
      exact ⟨hfreeing v h1, h2⟩
  · intro v hv
    by_cases hvk : v = k
    · exact ⟨t, _, Function.update_self .., by rw [hvk]⟩
    · have hv' : s.freeing v = true := by
        rw [← hv]
        exact (Function.update_of_ne hvk ..).symm
      exact C.doomer_update hg (by simp) hv'
  · have hgiven := C.given hg
    exact ⟨fun v hv => (by cases hv), hgiven.held, hgiven.slot⟩
  · exact fun t' x _ _ hgiven =>
      ⟨fun v hv => hfreeing v (hgiven.guest v hv), hgiven.held, hgiven.slot⟩

/-- The inode is freed, with its only reference. -/
theorem Counts.free (C : Counts base G s) {L L' : List (Key × Ref)} {o : Ref} {id : Nat}
    {fd : Option Nat} {d : Option Key} (hg : G t = some ⟨id, L, fd, d, none⟩)
    (hL : L.Perm ((k, o) :: L')) (hd : d = none ∨ d = some k)
    (hone : base k + heldBy G k + fileRefs s.filp k = 1) (hguests : guests G k = 0) :
    Counts base (Function.update G t (some ⟨id, L', fd, none, none⟩)) (s.free k) := by
  obtain ⟨ht, hid⟩ := C.live t _ hg
  have hholds : ∀ v, holds (G t) v =
      holds (some ⟨id, L', fd, none, none⟩) v + (if k = v then 1 else 0) := by
    intro v
    rw [hg]
    show L.countP _ = L'.countP _ + _
    rw [hL.countP_eq, List.countP_cons]
    simp
  have hheld : ∀ v, heldBy (Function.update G t (some ⟨id, L', fd, none, none⟩)) v +
      (if k = v then 1 else 0) = heldBy G v := by
    intro v
    have h1 := heldBy_update ht (some ⟨id, L', fd, none, none⟩) v (G := G)
    rw [hholds v] at h1
    omega
  -- nobody else has the inode
  have hlast : base k = 0 ∧ heldBy G k = 1 ∧ fileRefs s.filp k = 0 := by
    have h2 := hheld k
    rw [if_pos rfl] at h2
    omega
  have hother : ∀ t' x, t' ≠ t → G t' = some x → holds (G t') k = 0 := by
    intro t' x htt hx
    have h2 := holds_add_le G ht (C.live t' x hx).1 (Ne.symm htt) k
    have h3 := hholds k
    rw [if_pos rfl] at h3
    omega
  have hfreed : ∀ v, v ≠ k → (s.free k).freed v = s.freed v := fun v hv =>
    Function.update_of_ne hv ..
  have hinode : ∀ v, v ≠ k → (s.free k).inode v = s.inode v := fun v hv =>
    Function.update_of_ne hv ..
  have hfreeing : ∀ v, v ≠ k → (s.free k).freeing v = s.freeing v := fun v hv =>
    Function.update_of_ne hv ..
  have hgone : (s.free k).freeing k = false := Function.update_self ..
  have hheld' : ∀ r, r.1 ≠ k → Held s r → Held (s.free k) r := fun r hr h =>
    h.congr (hfreed r.1 hr) fun _ => by rw [hinode r.1 hr]
  refine C.step ht hid ?_ ?_ ?_ ?_ ?_ ?_ ⟨rfl, rfl, rfl, rfl⟩
  · intro v
    have h1 := hheld v
    rw [guests_update_eq ht hg (by rfl)]
    show _ = _ + _ + fileRefs s.filp v + _
    by_cases hv : v = k
    · subst hv
      have hcount : ((s.free v).inode v).count = 0 := by
        show (Function.update s.inode v _ v).count = 0
        rw [Function.update_self]
      rw [if_pos rfl] at h1
      rw [hcount]
      omega
    · rw [if_neg (Ne.symm hv)] at h1
      have h2 := C.count v
      rw [hinode v hv]
      omega
  · intro t' x v hx hv
    rcases ghost_cases hx with ⟨rfl, rfl⟩ | ⟨htt, hx⟩
    · cases hv
    · obtain ⟨h1, h2, h3, h4, h5⟩ := C.doomed t' x v hx hv
      have hvk : v ≠ k := by
        rintro rfl
        have h6 := hother t' x htt hx
        omega
      have h6 := hheld v
      rw [if_neg (Ne.symm hvk)] at h6
      rw [Function.update_of_ne htt, hinode v hvk, hfreeing v hvk]
      refine ⟨h1, h2, h3, ?_, h5⟩
      show _ + _ + fileRefs s.filp v = 1
      omega
  · intro v hv
    have hvk : v ≠ k := by
      rintro rfl
      rw [hgone] at hv
      cases hv
    rw [hfreeing v hvk] at hv
    refine C.doomer_update hg ?_ hv
    rcases hd with rfl | rfl
    · simp
    · simpa using Ne.symm hvk
  · have hgiven := C.given hg
    refine ⟨fun v hv => (by cases hv), fun r hr => ?_, hgiven.slot⟩
    refine hheld' r ?_ (hgiven.held r (hL.mem_iff.mpr (List.mem_cons_of_mem _ hr)))
    rintro rfl
    have h4 : 0 < holds (some ⟨id, L', fd, none, none⟩) r.1 :=
      List.countP_pos_iff.mpr ⟨r, hr, by simp⟩
    have h5 := hheld r.1
    have h6 := holds_le (Function.update G t (some ⟨id, L', fd, none, none⟩)) ht r.1
    rw [Function.update_self] at h6
    rw [if_pos rfl] at h5
    omega
  · intro t' x htt hx hgiven
    refine ⟨fun v hv => ?_, fun r hr => hheld' r ?_ (hgiven.held r hr), hgiven.slot⟩
    · have hvk : v ≠ k := by
        rintro rfl
        have h1 := guests_pos (C.live t' x hx).1 hx hv
        omega
      rw [hfreeing v hvk]
      exact hgiven.guest v hv
    · rintro rfl
      have h4 := holds_pos hx hr
      have h5 := hother t' x htt hx
      omega
  · intro t' f v hv
    obtain ⟨h1, h2, h3⟩ := C.file t' f v hv
    have hvk : v ≠ k := by
      rintro rfl
      have h4 : 0 < fileRefs s.filp v := fileRefs_pos h2 h3 hv
      omega
    rw [hfreed v hvk]
    exact ⟨h1, h2, h3⟩

/-- Task `t` changes one of its files, and what the call has with it. -/
theorem Counts.files (C : Counts base G s) (hg : G t = some h) (hid : h'.id = h.id)
    (hdoomed : h'.doomed = none) (hdoomed0 : h.doomed = none) (hguest : h'.guest = h.guest)
    {fd : Nat} (hfd : fd < nrOpen) {f : Option (Option Key)}
    (hrefs : ∀ v, holds (some h) v + (if (s.filp t fd).join = some v then 1 else 0) =
      holds (some h') v + (if f.join = some v then 1 else 0))
    (hheld : ∀ r ∈ h'.refs, Held s r)
    (hfile : ∀ v, f = some (some v) → s.freed v = false)
    (hslot : ∀ x, h'.fd = some x → x = fd ∧ f = some none) :
    Counts base (Function.update G t (some h')) (s.setFilp t fd f) := by
  obtain ⟨ht, hid0⟩ := C.live t h hg
  have hsum : ∀ v, heldBy (Function.update G t (some h')) v + fileRefs (s.setFilp t fd f).filp v =
      heldBy G v + fileRefs s.filp v := by
    intro v
    have h1 := heldBy_update ht (some h') v (G := G)
    rw [hg] at h1
    have h2 := hrefs v
    have h3 := fileRefs_setFilp ht hfd f v (s := s)
    omega
  refine C.step ht (hid.trans hid0) ?_ ?_ ?_ ?_ ?_ ?_ ⟨rfl, rfl, rfl, rfl⟩
  · intro v
    have h1 := hsum v
    have h2 := C.count v
    rw [guests_update_eq ht hg hguest]
    show (s.inode v).count = _
    omega
  · intro t' x v hx hv
    rcases ghost_cases hx with ⟨rfl, rfl⟩ | ⟨htt, hx⟩
    · rw [hdoomed] at hv
      cases hv
    · obtain ⟨h1, h2, h3, h4, h5⟩ := C.doomed t' x v hx hv
      have h6 := hsum v
      rw [Function.update_of_ne htt]
      exact ⟨h1, h2, h3, by omega, h5⟩
  · exact fun v hv => C.doomer_update hg (by rw [hdoomed0]; simp) hv
  · refine ⟨fun v hv => C.guest t h v hg (hguest ▸ hv),
      fun r hr => (hheld r hr).congr rfl fun _ => rfl, fun fd' hv => ?_⟩
    obtain ⟨rfl, hf⟩ := hslot fd' hv
    rw [setFilp_apply, if_pos ⟨rfl, rfl⟩]
    exact ⟨hf, hfd⟩
  · intro t' x htt _ hgiven
    refine ⟨hgiven.guest, fun r hr => (hgiven.held r hr).congr rfl fun _ => rfl, fun fd' hv => ?_⟩
    rw [setFilp_apply, if_neg fun h => htt h.1]
    exact hgiven.slot fd' hv
  · intro t' fd' v hv
    show s.freed v = false ∧ _
    rw [setFilp_apply] at hv
    split at hv
    · next heq =>
      rw [heq.1, heq.2]
      exact ⟨hfile v hv, ht, hfd⟩
    · exact C.file t' fd' v hv

/-- A task begins a call. -/
theorem Counts.begin (C : Counts base G s) (ht : t < nrTasks)
    (hrest : ∀ x, G t = some x → x.refs = [] ∧ x.fd = none ∧ x.doomed = none ∧ x.guest = none) :
    Counts base (Function.update G t (some ⟨t, [], none, none, none⟩)) s := by
  have hzero : ∀ v, holds (G t) v = 0 := by
    intro v
    rcases hg : G t with _ | x
    · rfl
    · show x.refs.countP _ = 0
      rw [(hrest x hg).1]
      rfl
  have hheld : ∀ v, heldBy (Function.update G t (some ⟨t, [], none, none, none⟩)) v =
      heldBy G v := by
    intro v
    have h1 := heldBy_update ht (some ⟨t, [], none, none, none⟩) v (G := G)
    have h2 : holds (some ⟨t, [], none, none, none⟩) v = 0 := rfl
    have h3 := hzero v
    omega
  have hguests : ∀ v, guests (Function.update G t (some ⟨t, [], none, none, none⟩)) v =
      guests G v := by
    intro v
    have h1 := guests_update ht (some ⟨t, [], none, none, none⟩) v (G := G)
    have h2 : (G t).bind Hold.guest = none := by
      rcases hg : G t with _ | x
      · rfl
      · exact (hrest x hg).2.2.2
    rw [h2] at h1
    exact Nat.add_right_cancel h1
  refine C.step ht rfl ?_ ?_ ?_ ⟨nofun, nofun, nofun⟩ (fun _ _ _ _ hgiven => hgiven) C.file
    ⟨rfl, rfl, rfl, rfl⟩
  · intro v
    rw [hheld, hguests]
    exact C.count v
  · intro t' x v hx hv
    rcases ghost_cases hx with ⟨rfl, rfl⟩ | ⟨htt, hx⟩
    · cases hv
    · rw [Function.update_of_ne htt, hheld]
      exact C.doomed t' x v hx hv
  · intro v hv
    obtain ⟨t', x, hx, hdoom⟩ := C.doomer v hv
    have htt : t' ≠ t := by
      rintro rfl
      rw [(hrest x hx).2.2.1] at hdoom
      cases hdoom
    exact ⟨t', x, by rw [Function.update_of_ne htt]; exact hx, hdoom⟩

/-! ## The procedures -/

theorem stable_inUse (P : Option Hold → State → Prop) : Stable (inUse base) P :=
  fun _ _ _ _ _ _ h => h.elim

/-- Task `id` is in a call with the references `L` and the file slot `fd`. -/
def Own (id : Nat) (L : List (Key × Ref)) (fd : Option Nat) (g : Option Hold) (_ : State) : Prop :=
  g = some ⟨id, L, fd, none, none⟩

/-- It is a guest of inode `k` besides. -/
def Guest (id : Nat) (L : List (Key × Ref)) (fd : Option Nat) (k : Key) (g : Option Hold)
    (_ : State) : Prop :=
  g = some ⟨id, L, fd, none, some k⟩

/-- The reference a use needs. -/
def Use.ref : Use → Ref
  | .dir => .plain
  | .opened => .live
  | .unlinked => .live

/-- A reference that may be useless: the inode has been freed, or is about to be. -/
def Taken (use : Use) (k : Key) (id : Nat) (L : List (Key × Ref)) (fd : Option Nat)
    (g : Option Hold) (s : State) : Prop :=
  Own id ((k, use.ref) :: L) fd g s ∨
    use ≠ .unlinked ∧ (Own id ((k, .dead) :: L) fd g s ∨ Guest id L fd k g s)

variable {n id : Nat} {L L' : List (Key × Ref)} {fd : Option Nat} {use : Use}

theorem read_own {α : Type} (f : State → α) (P : Option Hold → State → Prop) :
    Holds (inUse base) n (Code.read f : M α) P (fun a g s => P g s ∧ f s = a) :=
  holds_read (stable_inUse _) fun _ _ _ _ h => ⟨h, rfl⟩

theorem ask_own (P : Option Hold → State → Prop) :
    Holds (inUse base) n (Code.ask : M Nat) P (fun _ => P) :=
  holds_ask (stable_inUse _) fun _ _ _ _ _ h => h

theorem asleep_own {d : Option Key} {g : Option Hold} (hg : g = some ⟨id, L, fd, d, none⟩) :
    (inUse base).asleep g := by
  intro x hx
  rw [hg] at hx
  cases hx
  rfl

theorem sleep_own : Holds (inUse base) n (Code.sleep : M Unit) (Own id L fd) (fun _ => Own id L fd) :=
  holds_sleep (fun g : Option Hold => g = some ⟨id, L, fd, none, none⟩) fun _ => asleep_own

/-- An inode that is being freed has a reference and no link, and is no block
device. -/
theorem Counts.freed_soon (C : Counts base G s) (hk : s.freeing k = true) :
    (s.inode k).nlinks = 0 ∧ s.mode k ≠ .blk ∧ base k + heldBy G k + fileRefs s.filp k = 1 := by
  obtain ⟨t, h, hg, hd⟩ := C.doomer k hk
  obtain ⟨-, hlinks, hmode, hone, -⟩ := C.doomed t h k hg hd
  exact ⟨hlinks, hmode, hone⟩

/-- An update of the links and the flag of an inode the task has. -/
theorem Counts.inode (C : Counts base G s) (hg : G t = some ⟨id, L, fd, none, none⟩)
    (hk : 0 < holds (G t) k) {x : Inode} (hx : x.count = (s.inode k).count)
    (hlinks : s.freed k = true → x.nlinks = (s.inode k).nlinks)
    (hinode : s'.inode = Function.update s.inode k x) (hfreed : s'.freed = s.freed)
    (hfilp : s'.filp = s.filp) (hfreeing : s'.freeing = s.freeing) (hbeside : Beside s s') :
    Counts base G s' := by
  have hlinks' : s.freed k = true → (s'.inode k).nlinks = (s.inode k).nlinks := by
    intro hk
    rw [hinode, Function.update_self]
    exact hlinks hk
  have hother : ∀ v, v ≠ k → s'.inode v = s.inode v := by
    intro v hv
    rw [hinode, Function.update_of_ne hv]
  have hheld : ∀ r, Held s r → Held s' r := by
    intro r hr
    refine hr.congr (congrFun hfreed r.1) fun hd => ?_
    by_cases hrk : r.1 = k
    · rw [hrk]
      obtain ⟨v, o⟩ := r
      obtain rfl : v = k := hrk
      obtain rfl : o = .dead := hd
      exact hlinks' hr.1
    · rw [hother r.1 hrk]
  have hC : Counts base (Function.update G t (some ⟨id, L, fd, none, none⟩)) s' := by
    refine C.touch (k := k) hg rfl rfl rfl rfl rfl (fun t' x hx => C.alone hg rfl hk hx) hother ?_
      (fun r hr => hheld r (C.held t _ hg r hr)) ?_ hfreed hfilp hfreeing hbeside
    · intro v
      by_cases hv : v = k
      · rw [hv, hinode, Function.update_self, hx]
      · rw [hother v hv]
    · intro t' y _ hy hdead
      exact hlinks' (C.held t' y hy _ hdead).1
  rw [← hg, Function.update_eq_self] at hC
  exact hC

/-- A reference is given up. -/
theorem Counts.drop (C : Counts base G s) {o : Ref} (hg : G t = some ⟨id, L, fd, none, none⟩)
    (hL : L.Perm ((k, o) :: L')) :
    Counts base (Function.update G t (some ⟨id, L', fd, none, none⟩)) (s.drop k) := by
  have hk : (k, o) ∈ L := hL.mem_iff.mpr (List.mem_cons_self ..)
  have hpos := holds_pos hg hk
  have ht := (C.live t _ hg).1
  have hlinks : ∀ v, ((s.drop k).inode v).nlinks = (s.inode v).nlinks := by
    intro v
    show (Function.update s.inode k _ v).nlinks = _
    by_cases hv : v = k
    · rw [hv, Function.update_self]
    · rw [Function.update_of_ne hv]
  refine C.touch (k := k) hg rfl rfl rfl rfl rfl (fun t' x hx => C.alone hg rfl hpos hx) ?_ ?_ ?_
    (fun _ _ _ _ _ => hlinks k) rfl rfl rfl ⟨rfl, rfl, rfl, rfl⟩
  · exact fun v hv => Function.update_of_ne hv ..
  · intro v
    have hcount : L.countP (fun r => r.1 = v) =
        L'.countP (fun r => r.1 = v) + (if k = v then 1 else 0) := by
      rw [hL.countP_eq, List.countP_cons]
      simp
    show (Function.update s.inode k _ v).count + L.countP _ = _ + L'.countP _
    rw [hcount]
    by_cases hv : v = k
    · subst hv
      have h1 := C.count v
      have h2 := holds_le G ht v
      rw [Function.update_self, if_pos rfl]
      dsimp only
      omega
    · rw [Function.update_of_ne hv, if_neg (Ne.symm hv)]
      rfl
  · intro r hr
    exact (C.held t _ hg r (hL.mem_iff.mpr (List.mem_cons_of_mem _ hr))).congr rfl
      fun _ => hlinks r.1

theorem grab_count (s : State) (k : Key) (nlinks : Nat) (v : Key) :
    ((s.grab k nlinks).inode v).count = (s.inode v).count + (if k = v then 1 else 0) := by
  unfold State.grab
  dsimp only
  by_cases hv : v = k
  · rw [hv, Function.update_self, if_pos rfl]
    split <;> rfl
  · rw [Function.update_of_ne hv, if_neg (Ne.symm hv)]
    rfl

theorem grab_nlinks (s : State) (k : Key) (nlinks : Nat) :
    ((s.grab k nlinks).inode k).nlinks = s.links k nlinks := by
  unfold State.grab State.links
  dsimp only
  rw [Function.update_self]
  split <;> rfl

/-- An inode somebody has is not read again. -/
theorem links_of_pos (hk : 0 < (s.inode k).count) (nlinks : Nat) :
    s.links k nlinks = (s.inode k).nlinks := by
  unfold State.links
  rw [if_neg]
  rintro ⟨-, hzero⟩
  omega

/-- A reference is taken, to an inode that is not being freed. -/
theorem Counts.grab (C : Counts base G s) {o : Ref} {nlinks : Nat}
    (hg : G t = some ⟨id, L, fd, none, none⟩) (hk : s.freeing k = false)
    (ho : Held (s.grab k nlinks) (k, o)) :
    Counts base (Function.update G t (some ⟨id, (k, o) :: L, fd, none, none⟩))
      (s.grab k nlinks) := by
  -- a reference somebody has keeps the inode in core
  have hlinks : ∀ t' x, G t' = some x → (k, Ref.dead) ∈ x.refs →
      ((s.grab k nlinks).inode k).nlinks = (s.inode k).nlinks := by
    intro t' x hx hr
    have h1 := holds_pos hx hr
    have h2 := holds_le G (C.live t' x hx).1 k
    have h3 := C.count k
    rw [grab_nlinks, links_of_pos (by omega)]
  refine C.touch (k := k) hg rfl rfl rfl rfl rfl ?_ ?_ ?_ ?_ (fun t' x _ => hlinks t' x) rfl rfl rfl
    ⟨rfl, rfl, rfl, rfl⟩
  · intro t' x hx hdoom
    have h1 := (C.doomed t' x k hx hdoom).1
    rw [hk] at h1
    cases h1
  · exact fun v hv => Function.update_of_ne hv ..
  · intro v
    rw [grab_count]
    show _ + L.countP _ = _ + ((k, o) :: L).countP _
    rw [List.countP_cons]
    simp only [decide_eq_true_eq]
    omega
  · intro r hr
    rcases List.mem_cons.mp hr with rfl | hr
    · exact ho
    · refine (C.held t _ hg r hr).congr rfl fun hd => ?_
      by_cases hrk : r.1 = k
      · rw [hrk]
        exact hlinks t _ hg (by rw [← hrk, ← hd]; exact hr)
      · exact congrArg Inode.nlinks (Function.update_of_ne hrk ..)

/-- One is taken to an inode that is. -/
theorem Counts.join (C : Counts base G s) (hg : G t = some ⟨id, L, fd, none, none⟩)
    (hk : s.freeing k = true) (nlinks : Nat) :
    Counts base (Function.update G t (some ⟨id, L, fd, none, some k⟩)) (s.grab k nlinks) := by
  obtain ⟨-, -, hone⟩ := C.freed_soon hk
  have hcount := C.count k
  have hx := links_of_pos (s := s) (k := k) (by omega) nlinks
  have hvisit := C.visit hg hk (g := some k) (x := (s.grab k nlinks).inode k) (Or.inl rfl)
    (Or.inr rfl) ((grab_nlinks s k nlinks).trans hx) (by rw [grab_count]; simp)
  have hgrab : s.grab k nlinks =
      { s with inode := Function.update s.inode k ((s.grab k nlinks).inode k) } := by
    unfold State.grab
    dsimp only
    rw [Function.update_self]
  rw [hgrab]
  exact hvisit

/-- The guest leaves: the task that frees the inode has it still. -/
theorem Counts.leave (C : Counts base G s) (hg : G t = some ⟨id, L, fd, none, some k⟩) :
    Counts base (Function.update G t (some ⟨id, L, fd, none, none⟩)) (s.drop k) := by
  have hk := C.guest t _ k hg rfl
  obtain ⟨-, -, hone⟩ := C.freed_soon hk
  have hcount := C.count k
  refine C.visit hg hk (g := none) (Or.inr rfl) (Or.inl rfl) rfl ?_
  simp only [if_true, reduceCtorEq, if_false]
  omega

theorem stop_other {α : Type} {Q : α → Option Hold → State → Prop} (P : Option Hold → State → Prop) :
    Holds (inUse base) n (stop .other : M α) P Q := by
  refine holds_bind (R := fun _ _ _ => True) (holds_modify (stable_inUse _) ?_) fun _ => holds_panic
  intro G t s hi _
  refine ⟨trivial, G t, ?_, trivial⟩
  rw [Function.update_eq_self]
  exact { hi with going := Or.inr rfl, held := fun t h hg r hr => (hi.held t h hg r hr).congr rfl fun _ => rfl }

/-- `free_inode`, of an inode without links, by a task that has the last reference:
it has just seen so, or has slept as the one that frees the inode. The guests are
gone when it wakes. -/
theorem freeInode_counts {o : Ref} (hL : L.Perm ((k, o) :: L')) :
    Holds (inUse base) n (freeInode k)
      (fun g s => g = some ⟨id, L, fd, some k, none⟩ ∨
        Own id L fd g s ∧ ¬ (s.inode k).count > 1 ∧ (s.inode k).nlinks = 0)
      (fun _ => Own id L' fd) := by
  have hpos : ∀ {G : Nat → Option Hold} {t : Nat} {d : Option Key},
      G t = some ⟨id, L, fd, d, none⟩ → 0 < holds (G t) k := fun hg =>
    holds_pos hg (hL.mem_iff.mpr (List.mem_cons_self ..))
  unfold freeInode
  refine holds_bind (R := fun x g s => (∃ d, (d = none ∨ d = some k) ∧ g = some ⟨id, L, fd, d, none⟩) ∧
    s.inode k = x ∧ x.count = 1 ∧ x.nlinks = 0) (holds_read_others (stable_inUse _) ?_) fun x => ?_
  · rintro G t s hi ho (hg | ⟨hg, hcount, hlinks⟩)
    · obtain ⟨-, hlinks, -, hone, -⟩ := hi.doomed t _ k hg rfl
      refine ⟨⟨some k, Or.inr rfl, hg⟩, rfl, ?_, hlinks⟩
      have hnone : guests G k = 0 := by
        refine guests_eq_zero fun t' x hx => ?_
        by_cases htt : t' = t
        · subst htt
          rw [hg] at hx
          cases hx
          simp
        · rw [ho t' htt x hx]
          simp
      have hcount := hi.count k
      omega
    · refine ⟨⟨none, Or.inl rfl, hg⟩, rfl, ?_, hlinks⟩
      have h1 := hpos hg
      have h2 := holds_le G (hi.live t _ hg).1 k
      have h3 := hi.count k
      omega
  refine holds_fact (p := x.count = 1 ∧ x.nlinks = 0) ?_ fun _ _ h => h.2.2
  rintro ⟨hone, hlinks⟩
  refine holds_ite (fun h => absurd h (by omega)) fun _ => ?_
  refine holds_ite (fun h => absurd hlinks h) fun _ => ?_
  refine holds_bind (ask_own _) fun ok => ?_
  refine holds_ite (fun _ => stop_other _) fun _ => ?_
  refine holds_modify (stable_inUse _) ?_
  rintro G t s hi ⟨⟨d, hd, hg⟩, hx, -⟩
  have h1 := hpos hg
  have h2 := holds_le G (hi.live t _ hg).1 k
  have h3 := hi.count k
  rw [hx, hone] at h3
  exact ⟨trivial, some ⟨id, L', fd, none, none⟩, hi.free hg hL hd (by omega) (by omega), rfl⟩

/-- What the specification of a procedure is about: the task, its references
before and after an `iput`, its file slot. -/
structure Frame where
  id   : Nat
  refs : List (Key × Ref)
  rest : List (Key × Ref)
  fd   : Option Nat

def Before : Proc → Frame → Option Hold → State → Prop
  | .find .., i, g, s => Own i.id i.refs i.fd g s
  | .get .., i, g, s => Own i.id i.refs i.fd g s
  | .put k, i, g, s =>
    Own i.id i.refs i.fd g s ∧ (∃ o, i.refs.Perm ((k, o) :: i.rest)) ∨ Guest i.id i.rest i.fd k g s

def After : Proc → Frame → Ret → Option Hold → State → Prop
  | .find .., i, _, g, s => Own i.id i.refs i.fd g s
  | .get _ use, i, r, g, s => ∃ k, r = some k ∧ Taken use k i.id i.refs i.fd g s
  | .put _, i, _, g, s => Own i.id i.rest i.fd g s

section Procedures

variable (hcall : ∀ p i, Holds (inUse base) n (Code.call p) (Before p i) (After p i))
include hcall

/-- A task that has the inode. -/
theorem put_own_counts (k : Key) (i : Frame) {o : Ref} (hL : i.refs.Perm ((k, o) :: i.rest)) :
    Holds (inUse base) n (putBody k) (Own i.id i.refs i.fd) (After (.put k) i) := by
  have hpos : ∀ {G : Nat → Option Hold} {t : Nat}, G t = some ⟨i.id, i.refs, i.fd, none, none⟩ →
      0 < holds (G t) k := fun hg => holds_pos hg (hL.mem_iff.mpr (List.mem_cons_self ..))
  have hdrop : ∀ (P : Option Hold → State → Prop), (∀ g s, P g s → Own i.id i.refs i.fd g s) →
      Holds (inUse base) n
        (do Code.modify fun s => s.drop k
            return (none : Ret)) P (After (.put k) i) := by
    intro P hP
    refine holds_bind (R := fun _ => Own i.id i.rest i.fd) (holds_modify (stable_inUse _) ?_)
      fun _ => holds_pure fun _ _ _ _ h => h
    intro G t s hi hs
    exact ⟨trivial, _, hi.drop (hP _ _ hs) hL, rfl⟩
  unfold putBody
  refine holds_bind (read_own _ _) fun x => ?_
  refine holds_ite (fun _ => hdrop _ fun _ _ h => h.1) fun hcount => ?_
  refine holds_ite (fun hlinks => ?_) fun _ => ?_
  · refine holds_bind (read_own _ _) fun mode => holds_ite (fun hmode => ?_) fun _ => ?_
    · refine holds_bind (R := fun _ g _ => g = some ⟨i.id, i.refs, i.fd, some k, none⟩)
        (holds_modify (stable_inUse _) ?_) fun _ => ?_
      · rintro G t s hi ⟨⟨hg, hx⟩, hm⟩
        rw [← hx] at hcount hlinks
        refine ⟨trivial, _, hi.doom hg (hpos hg) hcount hlinks ?_, rfl⟩
        rw [hm]
        rcases hmode with rfl | rfl
        · simp
        · simp
      refine holds_bind (holds_sleep (fun g : Option Hold =>
        g = some ⟨i.id, i.refs, i.fd, some k, none⟩) fun _ => asleep_own) fun _ => ?_
      refine holds_bind ((freeInode_counts hL).pre fun _ _ h => Or.inl h) fun _ => ?_
      exact holds_pure fun _ _ _ _ h => h
    · refine holds_bind ((freeInode_counts hL).pre ?_) fun _ => holds_pure fun _ _ _ _ h => h
      rintro g s ⟨⟨hg, hx⟩, -⟩
      rw [← hx] at hcount hlinks
      exact Or.inr ⟨hg, hcount, hlinks⟩
  refine holds_ite (fun _ => ?_) fun _ => hdrop _ fun _ _ h => h.1
  refine holds_bind (sleep_own.pre fun _ _ h => h.1) fun _ => ?_
  refine holds_bind (R := fun _ => Own i.id i.refs i.fd) (holds_modify (stable_inUse _) ?_)
    fun _ => ?_
  · intro G t s hi hg
    refine ⟨trivial, G t, ?_, hg⟩
    rw [Function.update_eq_self]
    exact hi.inode (x := { s.inode k with dirt := false }) hg (hpos hg) rfl (fun _ => rfl) rfl rfl
      rfl rfl ⟨rfl, rfl, rfl, rfl⟩
  refine holds_bind sleep_own fun _ => ?_
  exact (hcall (.put k) i).pre fun _ _ h => Or.inl ⟨h, o, hL⟩

omit hcall in
/-- A guest gives its reference back at once. -/
theorem put_guest_counts (k : Key) (i : Frame) :
    Holds (inUse base) n (putBody k) (Guest i.id i.rest i.fd k) (After (.put k) i) := by
  unfold putBody
  refine holds_bind (R := fun x g s => Guest i.id i.rest i.fd k g s ∧ x.count > 1)
    (holds_read (stable_inUse _) ?_) fun x => ?_
  · intro G t s hi hg
    refine ⟨hg, ?_⟩
    have h1 := hi.freed_soon (hi.guest t _ k hg rfl)
    have h2 := guests_pos (hi.live t _ hg).1 hg rfl
    have h3 := hi.count k
    omega
  refine holds_fact (p := x.count > 1) (fun hcount => ?_) fun _ _ h => h.2
  refine holds_ite (fun _ => ?_) fun h => absurd hcount h
  refine holds_bind (R := fun _ => Own i.id i.rest i.fd) (holds_modify (stable_inUse _) ?_)
    fun _ => holds_pure fun _ _ _ _ h => h
  rintro G t s hi ⟨hg, -⟩
  exact ⟨trivial, _, hi.leave hg, rfl⟩

theorem put_counts (k : Key) (i : Frame) :
    Holds (inUse base) n (putBody k) (Before (.put k) i) (After (.put k) i) := by
  refine holds_or ?_ (put_guest_counts k i)
  refine holds_fact (p := ∃ o, i.refs.Perm ((k, o) :: i.rest)) ?_ fun _ _ h => h.2
  rintro ⟨o, hL⟩
  exact (put_own_counts hcall k i hL).pre fun _ _ h => h.1

theorem iputUnlocked_counts {k : Key} {o : Ref} (hL : L.Perm ((k, o) :: L')) :
    Holds (inUse base) n (iputUnlocked k) (Own id L fd) (fun _ => Own id L' fd) := by
  unfold iputUnlocked
  -- the task has a reference, so the count is not zero
  refine holds_bind (R := fun x g s => Own id L fd g s ∧ x.count ≠ 0)
    (holds_read (stable_inUse _) ?_) fun x => ?_
  · intro G t s hi hg
    refine ⟨hg, ?_⟩
    have h1 := holds_pos hg (hL.mem_iff.mpr (List.mem_cons_self ..))
    have h2 := holds_le G (hi.live t _ hg).1 k
    have h3 := hi.count k
    omega
  refine holds_fact (p := x.count ≠ 0) (fun hne => ?_) fun _ _ h => h.2
  refine holds_ite (fun h => absurd h hne) fun _ => ?_
  refine holds_bind (read_own _ _) fun mode => ?_
  refine holds_bind (R := fun _ => Own id L fd) ?_ fun _ => ?_
  · exact holds_when (fun _ => sleep_own.pre fun _ _ h => h.1.1) fun _ _ _ _ h _ => h.1.1
  refine holds_bind ((hcall (.put k) ⟨id, L, L', fd⟩).pre fun _ _ h => Or.inl ⟨h, o, hL⟩) fun _ => ?_
  exact holds_pure fun _ _ _ _ h => h

/-- An inode that is being freed is no block device, so `iput` does not sleep. -/
theorem iputUnlocked_guest (k : Key) :
    Holds (inUse base) n (iputUnlocked k) (Guest id L fd k) (fun _ => Own id L fd) := by
  unfold iputUnlocked
  refine holds_bind (R := fun x g s => Guest id L fd k g s ∧ x.count ≠ 0)
    (holds_read (stable_inUse _) ?_) fun x => ?_
  · intro G t s hi hg
    refine ⟨hg, ?_⟩
    have h1 := hi.freed_soon (hi.guest t _ k hg rfl)
    have h3 := hi.count k
    omega
  refine holds_fact (p := x.count ≠ 0) (fun hne => ?_) fun _ _ h => h.2
  refine holds_ite (fun h => absurd h hne) fun _ => ?_
  refine holds_bind (R := fun mode g s => Guest id L fd k g s ∧ mode ≠ .blk)
    (holds_read (stable_inUse _) ?_) fun mode => ?_
  · rintro G t s hi ⟨hg, -⟩
    exact ⟨hg, (hi.freed_soon (hi.guest t _ k hg rfl)).2.1⟩
  refine holds_fact (p := mode ≠ .blk) (fun hmode => ?_) fun _ _ h => h.2
  refine holds_bind (R := fun _ => Guest id L fd k) ?_ fun _ => ?_
  · exact holds_when (fun h => absurd (of_decide_eq_true h) hmode) fun _ _ _ _ h _ => h.1
  refine holds_bind ((hcall (.put k) ⟨id, [], L, fd⟩).pre fun _ _ h => Or.inr h) fun _ => ?_
  exact holds_pure fun _ _ _ _ h => h

theorem iput_counts {k : Key} {o : Ref} (hL : L.Perm ((k, o) :: L')) :
    Holds (inUse base) n (iput k) (Own id L fd) (fun _ => Own id L' fd) :=
  holds_bind sleep_own fun _ => iputUnlocked_counts hcall hL

omit hcall in
/-- `i_count++` of an inode that was found with that many references. -/
theorem grab_counts (k : Key) (use : Use) (nlinks count : Nat) :
    Holds (inUse base) n (Code.atom (.grab k use nlinks) fun s => s.grab k nlinks : M Unit)
      (fun g s => Own id L fd g s ∧ (s.inode k).count = count)
      (fun _ g s => Taken use k id L fd g s ∧ (Guest id L fd k g s → count ≠ 0)) := by
  have hnot : ∀ {o : Ref} {s : State}, ¬ Guest id L fd k (some ⟨id, (k, o) :: L, fd, none, none⟩) s := by
    intro o s h
    cases h
  refine holds_atom (stable_inUse _) ?_
  rintro G t s hi ⟨hg, hcount⟩ hcalm
  rcases Bool.eq_false_or_eq_true (s.freeing k) with hk | hk
  · have huse : use ≠ .unlinked := by
      rintro rfl
      rw [hcalm.1] at hk
      cases hk
    have h1 := hi.freed_soon hk
    have h2 := hi.count k
    exact ⟨trivial, _, hi.join hg hk nlinks, Or.inr ⟨huse, Or.inr rfl⟩, fun _ => by omega⟩
  · have hplain : ∀ o, Held (s.grab k nlinks) (k, o) → o = use.ref ∨ use ≠ .unlinked ∧ o = .dead →
        ∃ g, Counts base (Function.update G t g) (s.grab k nlinks) ∧
          Taken use k id L fd g (s.grab k nlinks) ∧
          (Guest id L fd k g (s.grab k nlinks) → count ≠ 0) := by
      intro o ho huse
      refine ⟨_, hi.grab hg hk ho, ?_, fun h => absurd h hnot⟩
      rcases huse with rfl | ⟨huse, rfl⟩
      · exact Or.inl rfl
      · exact Or.inr ⟨huse, Or.inl rfl⟩
    refine ⟨trivial, ?_⟩
    cases use with
    | dir => exact hplain .plain trivial (Or.inl rfl)
    | unlinked => exact hplain .live hcalm.2 (Or.inl rfl)
    | opened =>
      rcases Bool.eq_false_or_eq_true (s.freed k) with hf | hf
      · exact hplain .dead ⟨hf, (grab_nlinks s k nlinks).trans (hcalm hf)⟩
          (Or.inr ⟨by simp, rfl⟩)
      · exact hplain .live hf (Or.inl rfl)

omit hcall in
/-- One that stays is not being freed. -/
theorem grab_stays {o : Key} (ho : 0 < base o) (nlinks : Nat) :
    Holds (inUse base) n (Code.atom (.grab o .dir nlinks) fun s => s.grab o nlinks : M Unit)
      (Own id L fd) (fun _ => Own id ((o, .plain) :: L) fd) := by
  refine holds_atom (stable_inUse _) ?_
  intro G t s hi hg _
  have hk : s.freeing o = false := by
    rcases Bool.eq_false_or_eq_true (s.freeing o) with hk | hk
    · have h1 := hi.base_eq_zero hk
      omega
    · exact hk
  exact ⟨trivial, _, hi.grab (o := .plain) hg hk trivial, rfl⟩

theorem get_counts (k : Key) (use : Use) (i : Frame) :
    Holds (inUse base) n (getBody k use) (Before (.get k use) i) (After (.get k use) i) := by
  unfold getBody
  refine holds_bind sleep_own fun _ => holds_bind (ask_own _) fun nlinks => ?_
  refine holds_bind (R := fun count g s => Own i.id i.refs i.fd g s ∧ (s.inode k).count = count)
    (read_own _ _) fun count => ?_
  refine holds_bind (grab_counts k use nlinks count) fun _ => ?_
  -- nothing is mounted on an inode that is being freed
  refine holds_bind (R := fun root g s => root.elim
      (Taken use k i.id i.refs i.fd g s ∧ (Guest i.id i.refs i.fd k g s → count ≠ 0))
      fun _ => Own i.id ((k, use.ref) :: i.refs) i.fd g s ∨ Own i.id ((k, .dead) :: i.refs) i.fd g s)
    (holds_read (stable_inUse _) ?_) fun root => ?_
  · rintro G t s hi ⟨htaken, hguest⟩
    rcases hm : s.mount k with _ | r
    · exact ⟨htaken, hguest⟩
    · rcases htaken with hown | ⟨-, hown | hg⟩
      · exact Or.inl hown
      · exact Or.inr hown
      · have h1 := hi.base_eq_zero (hi.guest t _ k hg rfl)
        have h2 := hi.mounted k r hm
        omega
  cases root with
  | some r =>
    refine holds_bind (R := fun _ => Own i.id i.refs i.fd) ?_ fun _ => hcall (.get r use) i
    exact holds_or (iput_counts hcall (List.Perm.refl _)) (iput_counts hcall (List.Perm.refl _))
  | none =>
    refine holds_bind (R := fun _ => Taken use k i.id i.refs i.fd) ?_ fun _ =>
      holds_pure fun _ _ _ _ h => ⟨k, rfl, h⟩
    refine holds_when (fun hzero => ?_) fun _ _ _ _ h _ => h.1
    have hzero' : count = 0 := of_decide_eq_true hzero
    refine (holds_sleep (fun g : Option Hold =>
      g = some ⟨i.id, (k, use.ref) :: i.refs, i.fd, none, none⟩ ∨
        use ≠ .unlinked ∧ g = some ⟨i.id, (k, .dead) :: i.refs, i.fd, none, none⟩) ?_).conseq ?_ ?_
    · rintro g (hg | ⟨-, hg⟩)
      · exact asleep_own hg
      · exact asleep_own hg
    · rintro g s ⟨hown | ⟨huse, hown | hg⟩, hguest⟩
      · exact Or.inl hown
      · exact Or.inr ⟨huse, hown⟩
      · exact absurd hzero' (hguest hg)
    · rintro _ g s (hg | ⟨huse, hg⟩)
      · exact Or.inl hg
      · exact Or.inr ⟨huse, Or.inl hg⟩

omit hcall in
theorem nextBlock_counts (i : Nat) :
    Holds (inUse base) n (nextBlock i) (Own id L fd) (fun _ => Own id L fd) := by
  unfold nextBlock
  refine holds_ite (fun _ => ?_) fun _ => holds_pure fun _ _ _ _ h => h
  exact holds_bind sleep_own fun _ => ask_own _

theorem find_counts (d : Key) (name : Name) (j entries : Nat) (i : Frame) :
    Holds (inUse base) n (findBody d name j entries) (Before (.find d name j entries) i)
      (After (.find d name j entries) i) := by
  unfold findBody
  refine holds_ite (fun _ => ?_) fun _ => holds_pure fun _ _ _ _ h => h
  refine holds_bind (nextBlock_counts j) fun ok => ?_
  refine holds_ite (fun _ => ?_) fun _ => ?_
  · refine holds_ite (fun _ => holds_pure fun _ _ _ _ h => h) fun _ => ?_
    exact hcall (.find d name (j + dirEntriesPerBlock) entries) i
  · refine holds_bind (read_own _ _) fun de => ?_
    refine holds_ite (fun _ => holds_pure fun _ _ _ _ h => h.1) fun _ => ?_
    exact (hcall (.find d name (j + 1) entries) i).pre fun _ _ h => h.1

end Procedures

theorem call_counts (n : Nat) (p : Proc) (i : Frame) :
    Holds (inUse base) n (Code.call p) (Before p i) (After p i) := by
  refine holds_call (fun _ _ => stable_inUse _) ?_ n p i
  intro m hcall q j
  cases q with
  | find d name x entries => exact find_counts hcall d name x entries j
  | get k use => exact get_counts hcall k use j
  | put k => exact put_counts hcall k j

/-! ## The calls -/

theorem put_own {k : Key} {o : Ref} (hL : L.Perm ((k, o) :: L')) :
    Holds (inUse base) n (iput k) (Own id L fd) (fun _ => Own id L' fd) :=
  iput_counts (call_counts n) hL

/-- The last reference taken is given up first. -/
theorem put_head {k : Key} {o : Ref} :
    Holds (inUse base) n (iput k) (Own id ((k, o) :: L) fd) (fun _ => Own id L fd) :=
  put_own (List.Perm.refl _)

theorem put_taken (k : Key) (use : Use) :
    Holds (inUse base) n (iputUnlocked k) (Taken use k id L fd) (fun _ => Own id L fd) := by
  refine holds_or (iputUnlocked_counts (call_counts n) (List.Perm.refl _)) ?_
  refine Holds.pre (holds_or (iputUnlocked_counts (call_counts n) (List.Perm.refl _))
    (iputUnlocked_guest (call_counts n) k)) fun _ _ h => h.2

theorem iget_counts (k : Key) (use : Use) :
    Holds (inUse base) n (iget k use) (Own id L fd) (fun v => Taken use v id L fd) := by
  unfold iget
  refine holds_bind sleep_own fun _ => holds_bind (ask_own _) fun empty => ?_
  refine holds_ite (fun _ => stop_other _) fun _ => ?_
  refine holds_bind (call_counts n (.get k use) ⟨id, L, [], fd⟩) fun r => ?_
  refine holds_pure fun G t s _ h => ?_
  obtain ⟨v, rfl, hv⟩ := h
  exact hv

/-- **What `permission` lets through is no deleted file.** A guest finds no links, and
so does a task with a freed inode; what is left is the reference that was wanted. -/
theorem permission_counts (k : Key) (use : Use) :
    Holds (inUse base) n (permission k) (Taken use k id L fd)
      (fun ok g s => if ok then Own id ((k, use.ref) :: L) fd g s else Taken use k id L fd g s) := by
  unfold permission
  refine holds_bind (ask_own _) fun ok => ?_
  refine holds_bind (R := fun x g s => Taken use k id L fd g s ∧
    (x.nlinks ≠ 0 → Own id ((k, use.ref) :: L) fd g s)) (holds_read (stable_inUse _) ?_) fun x => ?_
  · intro G t s hi htaken
    refine ⟨htaken, fun hlinks => ?_⟩
    rcases htaken with hg | ⟨-, hg | hg⟩
    · exact hg
    · exact absurd (hi.held t _ hg _ (List.mem_cons_self ..)).2 hlinks
    · exact absurd (hi.freed_soon (hi.guest t _ k hg rfl)).1 hlinks
  refine holds_pure fun G t s _ h => ?_
  split
  · next hok => exact h.2 (of_decide_eq_true hok).1
  · exact h.1

theorem permission_own (k : Key) (P : Option Hold → State → Prop) :
    Holds (inUse base) n (permission k) P (fun _ => P) := by
  unfold permission
  refine holds_bind (ask_own _) fun ok => holds_bind (read_own _ _) fun x => ?_
  exact holds_pure fun _ _ _ _ h => h.1

/-- An inode taken is kept if it may be used. -/
theorem keep_counts {α : Type} (k : Key) (use : Use) {x : M α} {y : M α}
    {Q : α → Option Hold → State → Prop}
    (hx : Holds (inUse base) n x (Own id ((k, use.ref) :: L) fd) Q)
    (hy : Holds (inUse base) n y (Own id L fd) Q) :
    Holds (inUse base) n
      (do let ok ← permission k
          if ok then x
          else do
            iputUnlocked k
            y)
      (Taken use k id L fd) Q := by
  refine holds_bind (permission_counts k use) fun ok => holds_ite (fun hok => ?_) fun hok => ?_
  · exact hx.pre fun _ _ h => by rwa [if_pos hok] at h
  · refine holds_bind ((put_taken k use).pre fun _ _ h => ?_) fun _ => hy
    rwa [if_neg hok] at h

theorem dirNamei_counts (d : Key) (use : Use) :
    Holds (inUse base) n (dirNamei d use) (Own id L fd)
      (fun r => Own id ((r.toList.map fun v => (v, use.ref)) ++ L) fd) := by
  unfold dirNamei
  refine holds_bind (iget_counts d use) fun d => ?_
  exact keep_counts d use (holds_pure fun _ _ _ _ h => h) (holds_pure fun _ _ _ _ h => h)

theorem findEntry_counts (root d : Key) (name : Name) :
    Holds (inUse base) n (findEntry root d name) (Own id ((d, .plain) :: L) fd)
      (fun f => Own id ((f.1, .plain) :: L) fd) := by
  have hlook : ∀ (x : Key) (look : Name) (entries : Nat), Holds (inUse base) n
      (do let r ← Code.call (.find x look 0 entries)
          return (x, r)) (Own id ((x, .plain) :: L) fd) (fun f => Own id ((f.1, .plain) :: L) fd) := by
    intro x look entries
    refine holds_bind (call_counts n (.find x look 0 entries) ⟨id, (x, .plain) :: L, [], fd⟩)
      fun _ => ?_
    exact holds_pure fun _ _ _ _ h => h
  unfold findEntry
  refine holds_bind (read_own _ _) fun entries => ?_
  refine holds_ite (fun _ => holds_pure fun _ _ _ _ h => h.1) fun _ => ?_
  refine holds_ite (fun _ => (hlook d dot entries).pre fun _ _ h => h.1) fun _ => ?_
  refine holds_bind (R := fun r g s => Own id ((d, .plain) :: L) fd g s ∧
    ∀ o, r = some o → 0 < base o) (holds_read (stable_inUse _) ?_) fun covered => ?_
  · rintro G t s hi ⟨hg, -⟩
    exact ⟨hg, fun o ho => hi.covered d o ho⟩
  cases covered with
  | none => exact (hlook d _ entries).pre fun _ _ h => h.1
  | some o =>
    refine holds_ite (fun _ => ?_) fun _ => (hlook d _ entries).pre fun _ _ h => h.1
    -- the covered directory is in use for as long as the root is mounted
    refine holds_fact (p := 0 < base o) (fun ho => ?_) fun _ _ h => h.2 o rfl
    refine holds_bind (put_head.pre fun _ _ h => h.1) fun _ => ?_
    exact holds_bind (grab_stays ho 0) fun _ => hlook o _ entries

/-- An entry is cleared, or a link dropped, by a task that has the inode. -/
theorem clear_counts (d : Key) (i : Nat) (k : Key) :
    Holds (inUse base) n (Code.atom (.clear d i k) fun s => s.clear d i k)
      (Own id ((k, .live) :: L) fd) (fun _ => Own id ((k, .live) :: L) fd) := by
  refine holds_atom (stable_inUse _) ?_
  intro G t s hi hg _
  refine ⟨trivial, G t, ?_, hg⟩
  rw [Function.update_eq_self]
  have hpos := holds_pos hg (List.mem_cons_self ..)
  have hlive : s.freed k = false := hi.held t _ hg _ (List.mem_cons_self ..)
  have hfreed : ∀ {p : Prop}, s.freed k = true → p := by
    intro p hk
    rw [hlive] at hk
    cases hk
  by_cases hzero : (s.inode k).nlinks = 0
  · refine hi.inode (x := { s.inode k with nlinks := 1 }) hg hpos rfl hfreed ?_ rfl rfl rfl
      ⟨rfl, rfl, rfl, rfl⟩
    unfold State.clear
    dsimp only
    rw [if_pos hzero]
  · refine hi.inode (x := s.inode k) hg hpos rfl (fun _ => rfl) ?_ rfl rfl rfl
      ⟨rfl, rfl, rfl, rfl⟩
    unfold State.clear
    dsimp only
    rw [if_neg hzero, Function.update_eq_self]

theorem unlink_counts (k : Key) :
    Holds (inUse base) n (Code.modify fun s => s.unlink k) (Own id ((k, .live) :: L) fd)
      (fun _ => Own id ((k, .live) :: L) fd) := by
  refine holds_modify (stable_inUse _) ?_
  intro G t s hi hg
  refine ⟨trivial, G t, ?_, hg⟩
  rw [Function.update_eq_self]
  have hpos := holds_pos hg (List.mem_cons_self ..)
  have hlive : s.freed k = false := hi.held t _ hg _ (List.mem_cons_self ..)
  refine hi.inode
    (x := { s.inode k with nlinks := ((s.inode k).nlinks + 255) % 256, dirt := true })
    hg hpos rfl ?_ rfl rfl rfl rfl ⟨rfl, rfl, rfl, rfl⟩
  intro hk
  rw [hlive] at hk
  cases hk

theorem sysUnlink_counts (root d : Key) (name : Name) :
    Holds (inUse base) n (sysUnlink root d name) (Own id [] none) (fun _ => Own id [] none) := by
  unfold sysUnlink
  refine holds_bind (dirNamei_counts d .dir) fun dir => ?_
  cases dir with
  | none => exact holds_pure fun _ _ _ _ h => h
  | some d =>
    refine holds_ite (fun _ => put_head) fun _ => holds_bind (permission_own d _) fun ok => ?_
    refine holds_ite (fun _ => put_head) fun _ => ?_
    refine holds_bind (findEntry_counts root d name) fun f => ?_
    obtain ⟨x, e⟩ := f
    cases e with
    | none => exact put_head
    | some e =>
      refine holds_bind (R := fun k => Own id [(k, .live), (x, .plain)] none)
        ((iget_counts _ .unlinked).conseq (fun _ _ h => h) ?_) fun k => ?_
      · rintro k g s (h | ⟨h, -⟩)
        · exact h
        · exact absurd rfl h
      refine holds_bind (ask_own _) fun sticky => ?_
      refine holds_ite (fun _ => ?_) fun _ => ?_
      · exact holds_bind (put_own (List.Perm.swap ..)) fun _ => put_head
      refine holds_bind (read_own _ _) fun mode => ?_
      refine holds_ite (fun _ => ?_) fun _ => ?_
      · exact holds_bind (put_head.pre fun _ _ h => h.1) fun _ => put_head
      refine holds_bind ((clear_counts x e.1 k).pre fun _ _ h => h.1) fun _ => ?_
      refine holds_bind sleep_own fun _ => holds_bind (unlink_counts k) fun _ => ?_
      exact holds_bind put_head fun _ => put_head

/-- What `open_namei` returns is allocated. -/
theorem openNamei_counts (root d : Key) (name : Name) :
    Holds (inUse base) n (openNamei root d name) (Own id [] fd)
      (fun k => Own id (k.toList.map fun v => (v, .live)) fd) := by
  unfold openNamei
  refine holds_bind (dirNamei_counts d _) fun dir => ?_
  cases dir with
  | none => exact holds_pure fun _ _ _ _ h => h
  | some d =>
    refine holds_ite (fun hname => ?_) fun hname => ?_
    · rw [if_pos hname]
      refine holds_bind (ask_own _) fun flags => ?_
      refine holds_ite (fun _ => holds_pure fun _ _ _ _ h => h) fun _ => ?_
      exact holds_bind put_head fun _ => holds_pure fun _ _ _ _ h => h
    rw [if_neg hname]
    refine holds_bind (findEntry_counts root d name) fun f => ?_
    obtain ⟨x, e⟩ := f
    cases e with
    | none => exact holds_bind put_head fun _ => holds_pure fun _ _ _ _ h => h
    | some e =>
      refine holds_bind put_head fun _ => holds_bind (ask_own _) fun excl => ?_
      refine holds_ite (fun _ => holds_pure fun _ _ _ _ h => h) fun _ => ?_
      refine holds_bind (iget_counts _ .opened) fun k => ?_
      refine keep_counts k .opened ?_ (holds_pure fun _ _ _ _ h => h)
      exact holds_bind sleep_own fun _ => holds_pure fun _ _ _ _ h => h

/-- A task changes one of its files. -/
theorem setFilp_counts (L : List (Key × Ref)) (fd : Option Nat) {x : Nat}
    {f : Option (Option Key)} {fd' : Option Nat} {P : Option Hold → State → Prop}
    (h : ∀ G (t : Nat) s, Counts base G s → P (G t) s → Own id L fd (G t) s ∧ x < nrOpen ∧
      (∀ v, L.countP (fun r => r.1 = v) + (if (s.filp t x).join = some v then 1 else 0) =
        L'.countP (fun r => r.1 = v) + (if f.join = some v then 1 else 0)) ∧
      (∀ r ∈ L', Held s r) ∧ (∀ v, f = some (some v) → s.freed v = false) ∧
      ∀ y, fd' = some y → y = x ∧ f = some none) :
    Holds (inUse base) n (Code.modify fun s => s.setFilp id x f) P (fun _ => Own id L' fd') := by
  refine holds_modify (stable_inUse _) ?_
  intro G t s hi hs
  obtain ⟨hg, hx, hrefs, hheld, hfile, hslot⟩ := h G t s hi hs
  have hid : id = t := (hi.live t _ hg).2
  refine ⟨trivial, some ⟨id, L', fd', none, none⟩, ?_, rfl⟩
  rw [hid] at hg ⊢
  have hC : Counts base (Function.update G t (some ⟨t, L', fd', none, none⟩)) (s.setFilp t x f) :=
    hi.files hg (by rfl) (by rfl) (by rfl) (by rfl) hx hrefs hheld hfile hslot
  exact hC

/-- The file slot is given back. -/
theorem release_counts (x : Nat) :
    Holds (inUse base) n (Code.modify fun s => s.setFilp id x none) (Own id [] (some x))
      (fun _ => Own id [] none) := by
  refine setFilp_counts [] (some x) fun G t s hi hg => ?_
  obtain ⟨hslot, hx⟩ := hi.slot t _ x hg rfl
  refine ⟨hg, hx, fun v => ?_, by simp, by simp, by simp⟩
  rw [hslot]
  simp

theorem sysOpen_counts (root d : Key) (name : Name) :
    Holds (inUse base) n (sysOpen id root d name) (Own id [] none) (fun _ => Own id [] none) := by
  unfold sysOpen
  refine holds_bind (read_own _ _) fun x => holds_bind (ask_own _) fun file => ?_
  cases x with
  | none => exact holds_pure fun _ _ _ _ h => h.1
  | some x =>
    refine holds_ite (fun _ => holds_pure fun _ _ _ _ h => h.1) fun _ => ?_
    refine holds_bind (R := fun _ => Own id [] (some x)) (setFilp_counts [] none ?_) fun _ => ?_
    · rintro G t s hi ⟨hg, hfree⟩
      have hid : id = t := (hi.live t _ hg).2
      unfold freeFd at hfree
      have hnone := List.find?_some hfree
      have hx : x < nrOpen := List.mem_range.mp (List.mem_of_find?_eq_some hfree)
      refine ⟨hg, hx, fun v => ?_, by simp, by simp, fun y hy => ⟨by simpa using hy.symm, rfl⟩⟩
      rw [← hid, Option.isNone_iff_eq_none.mp hnone]
      simp
    refine holds_bind (openNamei_counts root d name) fun k => ?_
    cases k with
    | none => exact release_counts x
    | some k =>
      refine holds_bind (ask_own _) fun tty => ?_
      refine holds_ite (fun _ => ?_) fun _ => ?_
      · exact holds_bind put_head fun _ => release_counts x
      refine setFilp_counts [(k, .live)] (some x) fun G t s hi hg => ?_
      obtain ⟨hslot, hx⟩ := hi.slot t _ x hg rfl
      refine ⟨hg, hx, fun v => ?_, by simp, ?_, by simp⟩
      · rw [hslot]
        simp
      · intro v hv
        cases hv
        exact hi.held t _ hg _ (List.mem_cons_self ..)

theorem sysClose_counts (x : Nat) :
    Holds (inUse base) n (sysClose id x) (Own id [] none) (fun _ => Own id [] none) := by
  unfold sysClose
  refine holds_bind (read_own _ _) fun f => ?_
  match f with
  | none => exact holds_pure fun _ _ _ _ h => h.1
  | some none => exact holds_pure fun _ _ _ _ h => h.1
  | some (some k) =>
    refine holds_ite (fun _ => holds_pure fun _ _ _ _ h => h.1) fun hx => ?_
    refine holds_bind (R := fun _ => Own id [(k, .live)] none) (setFilp_counts [] none ?_)
      fun _ => put_head
    rintro G t s hi ⟨hg, hfile⟩
    have hid : id = t := (hi.live t _ hg).2
    refine ⟨hg, by omega, fun v => ?_, ?_, by simp, by simp⟩
    · rw [← hid, hfile]
      simp
    · intro r hr
      obtain rfl : r = (k, .live) := by simpa using hr
      exact (hi.file id x k hfile).1

theorem starts_inUse : Starts (inUse base) := by
  rintro t p ⟨ht, hp⟩ G s hi hrest
  have hstart : ∀ {x : M Unit},
      (∀ n, Holds (inUse base) n x (Own t [] none) (fun _ => Own t [] none)) →
      Begins (inUse base) t G s x.toProg := by
    intro x hx
    refine Holds.begins hx (hi.begin ht hrest) (fun _ => rfl) (fun _ G'' t' s'' _ hown y hy => ?_)
      (asleep_own rfl)
    rw [show G'' t' = some ⟨t, [], none, none, none⟩ from hown] at hy
    cases hy
    exact ⟨rfl, rfl, rfl, rfl⟩
  cases hp with
  | sysUnlink root d name => exact hstart fun n => sysUnlink_counts root d name
  | sysOpen root d name => exact hstart fun n => sysOpen_counts root d name
  | sysClose fd => exact hstart fun n => sysClose_counts fd

/-- A machine at rest: an inode has at least the references of the open files, and
is allocated if there are any. One that is mounted on, or that the root of a mounted
file system covers, has another reference, from `sys_mount`. -/
structure Ready (s : State) : Prop where
  count   : ∀ k, fileRefs s.filp k ≤ (s.inode k).count
  file    : ∀ t fd k, s.filp t fd = some (some k) → s.freed k = false ∧ t < nrTasks ∧ fd < nrOpen
  mounted : ∀ k r, s.mount k = some r → fileRefs s.filp k < (s.inode k).count
  covered : ∀ d o, s.covered d = some o → fileRefs s.filp o < (s.inode o).count
  freeing : ∀ k, s.freeing k = false
  going   : s.stopped = none

theorem Ready.counts (R : Ready s) :
    Counts (fun k => (s.inode k).count - fileRefs s.filp k) (fun _ => none) s := by
  have hheld : ∀ k, heldBy (fun _ => none) k = 0 := by
    intro k
    unfold heldBy
    exact Finset.sum_eq_zero fun _ _ => rfl
  have hguests : ∀ k, guests (fun _ => none) k = 0 := by
    intro k
    refine guests_eq_zero fun t h ht => ?_
    cases ht
  refine ⟨?_, ?_, ?_, ?_, ?_, ?_, R.file, ?_, ?_, ?_, Or.inl R.going⟩
  · intro t h ht
    cases ht
  · intro k
    have h1 := R.count k
    rw [hheld, hguests]
    omega
  · intro t h k ht
    cases ht
  · intro k hk
    rw [R.freeing k] at hk
    cases hk
  · intro t h k ht
    cases ht
  · intro t h ht
    cases ht
  · intro t h fd ht
    cases ht
  · intro k r hr
    exact Nat.sub_pos_of_lt (R.mounted k r hr)
  · intro d o ho
    exact Nat.sub_pos_of_lt (R.covered d o ho)

/-- **Opening and unlinking do not stop the kernel.** However `sys_open`,
`sys_unlink` and `sys_close` interleave, if `sys_open` takes no inode that has been
freed and shows links, and `sys_unlink` none that is being freed or has been, then
the panics of `iput` and `free_inode` are not reached, and the inode of every open
file is allocated. -/
theorem open_unlink_safe (h0 : Ready s) {c : Config State Tag Proc Ret}
    (h : kernel.Reach calm (Config.idle s) c) :
    (c.shared.stopped ≠ some .freeFree ∧ c.shared.stopped ≠ some .freeInode ∧
      c.shared.stopped ≠ some .freeLinks) ∧
    ∀ t fd k, c.shared.filp t fd = some (some k) → c.shared.freed k = false := by
  have hi : (inUse fun k => (s.inode k).count - fileRefs s.filp k).inv (fun _ => none) s :=
    h0.counts
  obtain ⟨G, hG⟩ := reach_idle starts_inUse hi (fun _ _ hx => by cases hx) h
  have C := hG.inv
  constructor
  · rcases C.going with hgo | hgo
    · rw [hgo]
      decide
    · rw [hgo]
      decide
  · exact fun t fd k hk => (C.file t fd k hk).1

/-- The root of device 1, with one name `a` of inode 5. -/
def oneName : State :=
  { twoNames with
    dir := fun d => { twoNames.dir d with size := if d = (1, 1) then 3 else 0 }
    inode := fun k => ⟨if k = (1, 1) then 2 else 1, if k = (1, 1) then 1 else 0, false⟩ }

theorem ready_oneName : Ready oneName := by
  refine ⟨?_, ?_, ?_, ?_, fun _ => rfl, rfl⟩
  · intro k
    have hzero : fileRefs oneName.filp k = 0 := by
      unfold fileRefs
      exact refs_eq_zero_iff.mpr fun _ _ h => by cases h
    omega
  · intro t fd k h
    cases h
  · intro k r h
    cases h
  · intro d o h
    cases h

def openA (t : Nat) : Prog State Tag Proc Ret := (sysOpen t (1, 1) (1, 1) [97#8]).toProg

/-- The path ends in a slash. -/
def openRoot (t : Nat) : Prog State Tag Proc Ret := (sysOpen t (1, 1) (1, 1) []).toProg

/-- `sys_open` up to `iget`, when it has given up the directory. -/
def copied (t : Nat) : List (Move State Tag Proc Ret Unit) :=
  leg t [1] ++ leg t [1] ++ leg t [0, 1] ++ leg t [1] ++ leg t [0]

/-- The condition of the runs, to be evaluated. -/
def calmly : Tag → State → Bool
  | .grab _ .dir _, _ => true
  | .grab k .opened nlinks, s => !s.freed k || s.links k nlinks == 0
  | .grab k .unlinked _, s => !s.freeing k && !s.freed k
  | .clear _ _ _, _ => true

theorem calm_of_calmly : ∀ x s, calmly x s = true → calm x s := by
  intro x s h
  cases x with
  | clear d i k => trivial
  | grab k use nlinks =>
    cases use with
    | dir => trivial
    | opened =>
      intro hk
      simpa [calmly, hk] using h
    | unlinked => simpa [calmly, calm] using h

theorem openA_ops {t : Nat} (ht : t < nrTasks) : kernel.ops t (openA t) :=
  ⟨ht, .sysOpen (1, 1) (1, 1) [97#8]⟩

theorem openRoot_ops {t : Nat} (ht : t < nrTasks) : kernel.ops t (openRoot t) :=
  ⟨ht, .sysOpen (1, 1) (1, 1) []⟩

/-- `sys_open` has copied the inode number when `sys_unlink` removes the name and
sleeps in `truncate`; it takes the inode then, and fails. Another task opens the
directory. -/
def openInTruncate : List (Move State Tag Proc Ret Unit) :=
  [.start 0 (openA 0), .start 1 unlinkA, .start 2 (openRoot 2)] ++ copied 0 ++ leg 2 [1] ++
    lookup 1 ++ removal 1 ++ leg 1 [] ++ leg 0 [1] ++ leg 0 [0, 1] ++ leg 2 [1] ++ leg 1 [1] ++
    leg 2 [0, 1, 0, 0]

theorem open_unlink_safe_inTruncate :
    ∃ c, kernel.Reach calm (Config.idle oneName) c ∧
      (c.shared.freed (1, 5) = true ∧ c.shared.filp 0 0 = none ∧
        c.shared.filp 2 0 = some (some (1, 1))) ∧
      (c.shared.stopped ≠ some .freeFree ∧ c.shared.stopped ≠ some .freeInode ∧
        c.shared.stopped ≠ some .freeLinks) ∧
      ∀ t fd k, c.shared.filp t fd = some (some k) → c.shared.freed k = false := by
  have hplay : ((kernel.play calmly (fun (_ : Unit) _ => none) openInTruncate
      (Config.idle oneName)).map fun c => decide (c.shared.freed (1, 5) = true ∧
        c.shared.filp 0 0 = none ∧ c.shared.filp 2 0 = some (some (1, 1)))) = some true := by
    decide +kernel
  have hops : ∀ q ∈ programs openInTruncate, kernel.ops q.1 q.2 := by
    rintro q (_ | ⟨_, _ | ⟨_, _ | ⟨_, ⟨⟩⟩⟩⟩)
    · exact openA_ops (by decide)
    · exact unlinkA_ops (by decide)
    · exact openRoot_ops (by decide)
  obtain ⟨c, hreach, hend⟩ := exists_reach calm_of_calmly (by simp) hops hplay
  exact ⟨c, hreach, of_decide_eq_true hend, open_unlink_safe ready_oneName hreach⟩

/-- Here `sys_unlink` is done when `sys_open` goes on: the inode is read again, and the
copy on disk still shows the link. -/
def openAfterFree : List (Move State Tag Proc Ret Unit) :=
  [.start 0 (openA 0), .start 1 unlinkA] ++ copied 0 ++ lookup 1 ++ removal 1 ++ leg 1 [] ++
    leg 1 [1] ++ leg 0 [1] ++ leg 0 [1] ++ leg 0 [1] ++ leg 0 [0]

/-- The file is open, and the bit of its inode is clear. -/
theorem open_returns_freed :
    ¬ ∀ (s : State) (c : Config State Tag Proc Ret), Ready s →
        kernel.Reach (fun _ _ => True) (Config.idle s) c →
        (c.shared.stopped ≠ some .freeFree ∧ c.shared.stopped ≠ some .freeInode ∧
          c.shared.stopped ≠ some .freeLinks) ∧
        ∀ t fd k, c.shared.filp t fd = some (some k) → c.shared.freed k = false := by
  intro hclaim
  have hplay : ((kernel.play (fun _ _ => true) (fun (_ : Unit) _ => none) openAfterFree
      (Config.idle oneName)).map fun c => decide (c.shared.filp 0 0 = some (some (1, 5)) ∧
        c.shared.freed (1, 5) = true)) = some true := by decide +kernel
  have hops : ∀ q ∈ programs openAfterFree, kernel.ops q.1 q.2 := by
    rintro q (_ | ⟨_, _ | ⟨_, ⟨⟩⟩⟩)
    · exact openA_ops (by decide)
    · exact unlinkA_ops (by decide)
  obtain ⟨c, hreach, hend⟩ := exists_reach (fun _ _ _ => trivial) (by simp) hops hplay
  obtain ⟨hopen, hfreed⟩ := of_decide_eq_true hend
  have hlive := (hclaim oneName c ready_oneName hreach).2 0 0 (1, 5) hopen
  rw [hfreed] at hlive
  cases hlive

end Linux011.Fs.Unlink
