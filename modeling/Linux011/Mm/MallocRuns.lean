import Linux011.Mm.MallocInv

/-!
# Kernel malloc — whole runs

Any sequence of `malloc`, of `free_s` of live objects, and of writes by the
owners of live objects. The chain of free objects runs through their own bytes, so an
owner that stays inside its object is what keeps the heap whole.

* `Inv.malloc`, `Inv.freeS` — neither routine panics, and both keep the
  invariant;
* `Inv.inside`, `Inv.disjoint` — where live objects are;
* `malloc_runs` — what holds in every heap that is reached.
-/

namespace Linux011.Mm.Malloc

open Lib

variable {idle : Option Nat} {h h' : Heap} {g : Lists} {z d o p : Nat}

/-! ## malloc -/

theorem mem_bucketDir {len : Nat} (hz : bucketOf len = some z) : z ∈ bucketDir ∧ len ≤ z :=
  ⟨List.mem_of_find?_eq_some hz, of_decide_eq_true (List.find?_some (p := fun size => decide (len ≤ size)) hz)⟩

theorem bucketOf_of_le {len : Nat} (hlen : len ≤ pageSize) : ∃ z, bucketOf len = some z := by
  refine Option.isSome_iff_exists.mp (List.find?_isSome.mpr ⟨4096, by decide, ?_⟩)
  exact decide_eq_true hlen

/-- A bucket that has just been made. -/
theorem Inv.makeBucket (I : Inv none h g) (hz : z ∈ bucketDir) {descPage bucketPage : Nat} (hdesc : h.Free descPage)
    (hpage : h.Free bucketPage) (hne : descPage ≠ bucketPage) :
    ∃ s d, Malloc.makeBucket h.toMem z descPage bucketPage = (s, d) ∧ s.freeptr d = some bucketPage ∧
      ∃ g', g'.On z d ∧ Inv (some d) ⟨s, h.live, h.asked⟩ g' := by
  unfold Malloc.makeBucket
  split
  · next bdesc hfree =>
    have hun := I.unused
    rw [hfree] at hun
    obtain ⟨rest, hrest⟩ : ∃ rest, g.unused = bdesc :: rest := by
      cases hl : g.unused with
      | nil =>
        rw [hl] at hun
        cases hun
      | cons a rest =>
        rw [hl] at hun
        cases hun.1
        exact ⟨rest, rfl⟩
    refine ⟨_, _, rfl, Function.update_self .., _, ⟨hz, ?_⟩, I.newBucket hrest hz hpage⟩
    dsimp only
    rw [Function.update_self]
    exact List.mem_cons_self
  · have Idesc := I.initBucketDesc hdesc
    have hfresh : (Malloc.initBucketDesc h.toMem descPage).Free bucketPage := by
      refine ⟨hpage.1, fun hmem => ?_⟩
      rcases Finset.mem_insert.mp hmem with rfl | hmem
      · exact hne rfl
      · exact hpage.2 hmem
    have hfirst : evenly descPage descSize last = descPage :: evenly (descPage + descSize) descSize 254 := evenly_succ
    have hunused : evenly descPage descSize last ++ g.unused =
        descPage :: (evenly (descPage + descSize) descSize 254 ++ g.unused) := by rw [hfirst, List.cons_append]
    refine ⟨_, _, rfl, Function.update_self .., _, ⟨hz, ?_⟩, Idesc.newBucket hunused hz hfresh⟩
    dsimp only
    rw [Function.update_self]
    exact List.mem_cons_self

/-- `malloc` returns an object that was not live. -/
theorem Inv.malloc (I : Inv none h g) {len descPage bucketPage : Nat} (hlen : len ≤ pageSize)
    (hdesc : h.Free descPage) (hpage : h.Free bucketPage) (hne : descPage ≠ bucketPage) :
    ∃ s o, Malloc.malloc h.toMem len descPage bucketPage = .ok (s, o) ∧ o ∉ h.live ∧
      ∃ g', Inv none ⟨s, insert o h.live, Function.update h.asked o len⟩ g' := by
  obtain ⟨z, hbucket⟩ := bucketOf_of_le hlen
  have hz := (mem_bucketDir hbucket).1
  have hfind : (bucketDir.find? fun size => decide (len ≤ size)) = some z := hbucket
  unfold Malloc.malloc
  rw [hfind]
  dsimp only
  rcases first_or_none (fun bdesc => (h.freeptr bdesc).isSome) (g.chain z) with ⟨l₁, d, l₂, hsplit, hfail, hd⟩ | hnone
  · have hchain := I.chain z hz
    have hlength := I.length_le hz
    have hon : g.On z d := ⟨hz, by rw [hsplit]; simp⟩
    rw [hsplit] at hchain hlength
    rw [walk_some hchain hlength hfail hd]
    obtain ⟨o, ho⟩ := Option.isSome_iff_exists.mp hd
    obtain ⟨hdead, I'⟩ := I.takeObject hon (fun e he => by cases he) hbucket ho
    refine ⟨Malloc.takeObject h.toMem d o, o, ?_, hdead, _, I'⟩
    dsimp only [takeFirst]
    rw [ho]
  · rw [walk_none (I.chain z hz) (I.length_le hz) hnone]
    obtain ⟨s, d, hmake, hfirst, g', hon, I'⟩ := I.makeBucket hz hdesc hpage hne
    obtain ⟨hdead, I''⟩ := I'.takeObject hon (fun e he => (Option.some.inj he).symm) hbucket hfirst
    refine ⟨Malloc.takeObject s d bucketPage, bucketPage, ?_, hdead, _, I''⟩
    dsimp only
    rw [hmake]
    dsimp only [takeFirst]
    rw [hfirst]

/-! ## free_s -/

/-- The search finds the bucket of an object, whatever sizes are looked at
first. -/
theorem Inv.search (I : Inv none h g) (hd : g.On z d) (hpage : h.page d = p) {size : Int} (hsize : size ≤ z)
    {l₁ l₂ : List Nat} (hsplit : g.chain z = l₁ ++ d :: l₂) :
    ∀ dir : List Nat, (∀ z' ∈ dir, z' ∈ bucketDir) → z ∈ dir →
      Malloc.search h.toMem p size dir = .ok (z, before none l₁, d) := by
  intro dir
  induction dir with
  | nil =>
    intro _ hz
    cases hz
  | cons bdir rest ih =>
    intro hdir hz
    have hbdir := hdir bdir List.mem_cons_self
    rw [Malloc.search]
    by_cases heq : z = bdir
    · subst heq
      have hchain := I.chain z hd.1
      have hlength := I.length_le hd.1
      have hnodup := hchain.nodup
      rw [hsplit] at hchain hlength hnodup
      have hfail : ∀ b ∈ l₁, decide (h.page b = p) = false := by
        intro b hb
        refine decide_eq_false fun hbp => ?_
        have hbd := I.pages z z b d ⟨hd.1, by rw [hsplit]; simp [hb]⟩ hd (hbp.trans hpage.symm)
        subst hbd
        rw [List.nodup_middle] at hnodup
        exact (List.nodup_cons.mp hnodup).1 (List.mem_append_left l₂ hb)
      rw [if_neg (by omega), walk_some hchain hlength hfail (decide_eq_true hpage)]
    · have hrest := ih (fun z' hz' => hdir z' (List.mem_cons_of_mem bdir hz'))
        ((List.mem_cons.mp hz).resolve_left heq)
      have hnone : ∀ b ∈ g.chain bdir, decide (h.page b = p) = false := by
        intro b hb
        refine decide_eq_false fun hbp => ?_
        have hbd := I.pages bdir z b d ⟨hbdir, hb⟩ hd (hbp.trans hpage.symm)
        subst hbd
        exact heq (I.apart z bdir b hd ⟨hbdir, hb⟩)
      split
      · exact hrest
      · rw [walk_none (I.chain bdir hbdir) (I.length_le hbdir) hnone]
        exact hrest

/-- The descriptor is taken out behind the one before it. -/
theorem Inv.unlink (I : Inv (some d) h g) (hd : g.On z d) (hzero : h.refcnt d = 0) {l₁ l₂ : List Nat}
    (hsplit : g.chain z = l₁ ++ d :: l₂) :
    stale h.toMem z (before none l₁) d = false ∧ ∃ s, Malloc.unlink h.toMem z (before none l₁) d = .ok s ∧
      ∃ g', Inv none ⟨s, h.live, h.asked⟩ g' := by
  have hchain := I.chain z hd.1
  have hnodup := hchain.nodup
  rw [hsplit] at hchain hnodup
  have hdl : d ∉ l₁ ++ l₂ := by
    rw [List.nodup_middle] at hnodup
    exact (List.nodup_cons.mp hnodup).1
  have hunused := I.inUse z d hd
  have hothers : ∀ z' ∈ bucketDir, z' ≠ z → ∀ b, b ∈ g.chain z → b ∉ g.chain z' := by
    intro z' hz' hzz b hb hb'
    exact hzz (I.apart z' z b ⟨hz', hb'⟩ ⟨hd.1, hb⟩)
  rcases List.eq_nil_or_concat l₁ with rfl | ⟨l₀, q, rfl⟩
  · -- the first of the chain
    obtain ⟨hhead, htail⟩ := hchain
    refine ⟨?_, _, ?_, _, I.release hd hzero hsplit (Function.update h.chain z (h.next d))
      (Function.update h.next d h.freeBucketDesc) ?_ ?_ ⟨rfl, ?_⟩⟩
    · show (h.chain z != some d) = false
      rw [hhead]
      exact bne_self_eq_false _
    · show (if h.chain z ≠ some d then _ else _) = _
      rw [if_neg (not_not_intro hhead)]
      rfl
    · rw [Function.update_self]
      exact htail.update hdl
    · intro z' hz' hzz
      rw [Function.update_of_ne hzz]
      exact (I.chain z' hz').update (hothers z' hz' hzz d hd.2)
    · rw [Function.update_self]
      exact I.unused.update hunused
  · -- after another one
    rw [List.concat_eq_append] at hsplit hchain hdl hnodup ⊢
    rw [List.append_assoc] at hchain
    have hnext : h.next q = some d := hchain.next_before
    have hq : q ∈ g.chain z := by
      rw [hsplit]
      simp
    have hqun : q ∉ g.unused := I.inUse z q ⟨hd.1, hq⟩
    have hdelete : Chain (Function.update h.next q (h.next d)) (h.chain z) (l₀ ++ [q] ++ l₂) := by
      rw [List.append_assoc]
      exact hchain.delete
    rw [before_concat]
    refine ⟨?_, _, rfl, _, I.release hd hzero hsplit h.chain
      (Function.update (Function.update h.next q (h.next d)) d h.freeBucketDesc) ?_ ?_ ⟨rfl, ?_⟩⟩
    · show (h.next q != some d) = false
      rw [hnext]
      exact bne_self_eq_false _
    · exact hdelete.update hdl
    · intro z' hz' hzz
      exact ((I.chain z' hz').update (hothers z' hz' hzz q hq)).update (hothers z' hz' hzz d hd.2)
    · rw [Function.update_self]
      exact (I.unused.update hqun).update hunused

/-- `free_s` of a live object finds it. -/
theorem Inv.freeS (I : Inv none h g) (ho : o ∈ h.live) {bucket : Nat} (hbucket : bucketOf (h.asked o) = some bucket)
    {size : Int} (hsize : size ≤ bucket) :
    ∃ s, Malloc.freeS h.toMem o size = .ok s ∧ ∃ g', Inv none ⟨s, h.live.erase o, h.asked⟩ g' := by
  obtain ⟨z, d, hd, hslot, hz⟩ := I.live o ho
  obtain rfl : z = bucket := Option.some.inj (hz.symm.trans hbucket)
  obtain ⟨l₁, l₂, hsplit⟩ := List.append_of_mem hd.2
  have hsearch := I.search hd hslot.1.symm hsize hsplit bucketDir (fun _ hz' => hz') hd.1
  have I' := I.putObject hd ho hslot
  unfold Malloc.freeS
  rw [hsearch]
  dsimp only
  split
  · next hzero =>
    obtain ⟨hstale, s, hunlink, g', I''⟩ := I'.unlink hd hzero hsplit
    rw [if_neg (by rw [hstale]; exact Bool.false_ne_true), hunlink]
    exact ⟨s, rfl, g', I''⟩
  · next hpos => exact ⟨_, rfl, _, I'.settle (Nat.pos_of_ne_zero hpos)⟩

/-! ## Where live objects are -/

/-- An object ends with its page at the latest. -/
theorem slot_end (hz : z ∈ bucketDir) (hp : pageSize ∣ p) (hslot : Slot p z o) : p ≤ o ∧ o + z ≤ p + pageSize := by
  obtain ⟨hlo, hhi⟩ := (pageOf_eq_iff hp).mp hslot.1
  obtain ⟨a, ha⟩ := hslot.2
  obtain ⟨b, hb⟩ := Nat.dvd_add ((size_dvd hz).trans hp) (size_dvd hz)
  have hlt : z * a < z * b := by omega
  have hle : z * (a + 1) ≤ z * b := Nat.mul_le_mul_left z (Nat.lt_of_mul_lt_mul_left hlt)
  rw [Nat.mul_succ] at hle
  exact ⟨hlo, by omega⟩

/-- Objects of one size that overlap are the same. -/
theorem dvd_overlap {o' : Nat} (ho : z ∣ o) (ho' : z ∣ o') (hle : o ≤ o') (hlt : o' < o + z) : o' = o := by
  have hdvd : z ∣ o' - o := Nat.dvd_sub ho' ho
  have hzero := Nat.eq_zero_of_dvd_of_lt hdvd (by omega)
  omega

/-- The slots of buckets do not overlap. -/
theorem Inv.overlap (I : Inv idle h g) {z' d' o' : Nat} (hd : g.On z d) (hd' : g.On z' d') (hslot : Slot (h.page d) z o)
    (hslot' : Slot (h.page d') z' o') (hle : o ≤ o') (hlt : o' < o + z) : o' = o := by
  have hp := (I.page z d hd).1
  have hend := slot_end hd.1 hp hslot
  have hpage : pageOf o' = h.page d := (pageOf_eq_iff hp).mpr ⟨by omega, by omega⟩
  obtain rfl : d' = d := I.pages z' z d' d hd' hd (hslot'.1.symm.trans hpage)
  obtain rfl : z' = z := I.apart z' z d' hd' hd
  exact dvd_overlap hslot.2 hslot'.2 hle hlt

/-- What the owners of live objects write does not matter. -/
theorem Inv.use (I : Inv none h g) {word : Nat → Option Nat} (hword : h.Allowed (.use word)) :
    Inv none { h with word := word } g := by
  refine { I with free := ?_ }
  intro z d hd
  refine (I.free z d hd).congr fun o ho => hword o ?_
  obtain ⟨hslot, hdead⟩ := (I.slots z d hd o).mp ho
  rintro obj hobj bucket hbucket ⟨hle, hlt⟩
  obtain ⟨z', d', hd', hslot', hz'⟩ := I.live obj hobj
  obtain rfl : z' = bucket := Option.some.inj (hz'.symm.trans hbucket)
  obtain rfl := I.overlap hd' hd hslot' hslot hle hlt
  exact hdead hobj

/-! ## Runs -/

theorem inv_start (s : Mem) : Inv none (.start s) ⟨fun _ => [], [], fun _ => []⟩ := by
  have hon : ∀ z d, ¬ (Lists.mk (fun _ => []) [] fun _ => []).On z d := by
    rintro z d ⟨-, hd⟩
    cases hd
  refine ⟨fun _ _ => rfl, rfl, fun z _ d hd => absurd hd (hon z d), fun z d hd => absurd hd (hon z d), ?_, ?_,
    fun z d hd => absurd hd (hon z d), fun z d hd => absurd hd (hon z d), fun z _ d _ hd => absurd hd (hon z d),
    fun z d hd => absurd hd (hon z d), fun z d hd => absurd hd (hon z d), fun z d hd => absurd hd (hon z d),
    fun z d hd => absurd hd (hon z d), ?_, ?_⟩
  · intro d
    constructor
    · rintro ⟨p, hp, -⟩
      cases hp
    · rintro (hd | ⟨z, hd⟩)
      · cases hd
      · exact absurd hd (hon z d)
  · intro p hp
    cases hp
  · intro o ho
    cases ho
  · intro p
    constructor
    · intro hp
      cases hp
    · rintro (hp | ⟨z, d, hd, -⟩)
      · cases hp
      · exact absurd hd (hon z d)

/-- An operation that is allowed does not panic, and keeps the invariant. -/
theorem Inv.step (I : Inv none h g) {op : Op} (hop : h.Allowed op) :
    ∃ h', h.step op = .ok h' ∧ ∃ g', Inv none h' g' := by
  cases op with
  | malloc len descPage bucketPage =>
    obtain ⟨hlen, hdesc, hpage, hne⟩ := hop
    obtain ⟨s, o, hmalloc, -, g', I'⟩ := I.malloc hlen hdesc hpage hne
    refine ⟨⟨s, insert o h.live, Function.update h.asked o len⟩, ?_, g', I'⟩
    dsimp only [Heap.step]
    rw [hmalloc]
  | freeS obj size =>
    obtain ⟨hlive, bucket, hbucket, hsize⟩ := hop
    obtain ⟨s, hfree, g', I'⟩ := I.freeS hlive hbucket hsize
    refine ⟨⟨s, h.live.erase obj, h.asked⟩, ?_, g', I'⟩
    dsimp only [Heap.step]
    rw [hfree]
  | use word => exact ⟨_, rfl, g, I.use hop⟩

theorem inv_reach {s : Mem} (h : Relation.ReflTransGen Next (.start s) h') : ∃ g, Inv none h' g := by
  induction h with
  | refl => exact ⟨_, inv_start s⟩
  | tail _ hstep ih =>
    obtain ⟨g, I⟩ := ih
    obtain ⟨op, hop, hstep⟩ := hstep
    obtain ⟨h₂, hok, hinv⟩ := I.step hop
    rw [hstep] at hok
    cases hok
    exact hinv

/-- A bucket page is held as long as an object of it is live. -/
theorem Inv.held_iff (I : Inv none h g) (p : Nat) : p ∈ h.held ↔ p ∈ h.descPages ∨ ∃ o ∈ h.live, pageOf o = p := by
  rw [I.held p]
  refine or_congr_right ⟨?_, ?_⟩
  · rintro ⟨z, d, hd, rfl⟩
    have hpos := I.busy z d hd (Option.some_ne_none d)
    rw [I.refcnt z d hd] at hpos
    obtain ⟨o, ho⟩ := Finset.card_pos.mp hpos
    obtain ⟨hlive, hpage⟩ := mem_liveOn.mp ho
    exact ⟨o, hlive, hpage⟩
  · rintro ⟨o, ho, rfl⟩
    obtain ⟨z, d, hd, hslot, -⟩ := I.live o ho
    exact ⟨z, d, hd, hslot.1.symm⟩

/-- A live object is aligned to the size of its bucket and lies inside one page,
which holds no descriptors. -/
theorem Inv.inside (I : Inv idle h g) (ho : o ∈ h.live) :
    ∃ z, bucketOf (h.asked o) = some z ∧ h.asked o ≤ z ∧ z ∣ o ∧ (∀ a, o ≤ a → a < o + z → pageOf a = pageOf o) ∧
      pageOf o ∉ h.descPages := by
  obtain ⟨z, d, hd, hslot, hbucket⟩ := I.live o ho
  obtain ⟨hp, hdesc⟩ := I.page z d hd
  have hend := slot_end hd.1 hp hslot
  rw [hslot.1]
  refine ⟨z, hbucket, (mem_bucketDir hbucket).2, hslot.2, ?_, hdesc⟩
  intro a hlo hhi
  exact (pageOf_eq_iff hp).mpr ⟨by omega, by omega⟩

/-- No live object begins inside another one. -/
theorem Inv.disjoint (I : Inv idle h g) {o' : Nat} (ho : o ∈ h.live) (ho' : o' ∈ h.live)
    (hbucket : bucketOf (h.asked o) = some z) (hle : o ≤ o') (hlt : o' < o + z) : o' = o := by
  obtain ⟨z₁, d₁, hd₁, hslot₁, hz₁⟩ := I.live o ho
  obtain ⟨z₂, d₂, hd₂, hslot₂, -⟩ := I.live o' ho'
  obtain rfl : z₁ = z := Option.some.inj (hz₁.symm.trans hbucket)
  exact I.overlap hd₁ hd₂ hslot₁ hslot₂ hle hlt

/-- **What holds in every heap that is reached.** Live objects are aligned,
inside one page and apart from each other and from the descriptors; chains,
unused descriptors, free objects and reference counts are as `Inv` says; a page
is held exactly if it has descriptors or a live object; and neither routine
panics. -/
theorem malloc_runs {s : Mem} (hrun : Relation.ReflTransGen Next (.start s) h) :
    (∀ o ∈ h.live, ∃ z, bucketOf (h.asked o) = some z ∧ h.asked o ≤ z ∧ z ∣ o ∧
      (∀ a, o ≤ a → a < o + z → pageOf a = pageOf o) ∧ pageOf o ∉ h.descPages) ∧
    (∀ o ∈ h.live, ∀ o' ∈ h.live, ∀ z, bucketOf (h.asked o) = some z → o ≤ o' → o' < o + z → o' = o) ∧
    (∃ g, Inv none h g) ∧
    (∀ p, p ∈ h.held ↔ p ∈ h.descPages ∨ ∃ o ∈ h.live, pageOf o = p) ∧
    (∀ len descPage bucketPage, h.Allowed (.malloc len descPage bucketPage) →
      ∃ s o, malloc h.toMem len descPage bucketPage = .ok (s, o) ∧ o ∉ h.live) ∧
    ∀ op, h.Allowed op → ∃ h', h.step op = .ok h' := by
  obtain ⟨g, I⟩ := inv_reach hrun
  refine ⟨fun o ho => I.inside ho, fun o ho o' ho' z hz => I.disjoint ho ho' hz, ⟨g, I⟩, I.held_iff, ?_, ?_⟩
  · rintro len descPage bucketPage ⟨hlen, hdesc, hpage, hne⟩
    obtain ⟨s, o, hmalloc, hdead, -⟩ := I.malloc hlen hdesc hpage hne
    exact ⟨s, o, hmalloc, hdead⟩
  · intro op hop
    obtain ⟨h', hok, -⟩ := I.step hop
    exact ⟨h', hok⟩

/-- All pointers null. -/
def zeroed : Mem :=
  ⟨fun _ => none, none, fun _ => 0, fun _ => none, fun _ => none, fun _ => 0, fun _ => 0, fun _ => none, ∅, ∅⟩

/-- The heap after a call that does not panic. -/
def Heap.after (h : Heap) (op : Op) : Heap :=
  match h.step op with
  | .ok h' => h'
  | .error _ => h

theorem next_after {op : Op} (hop : h.Allowed op) (hok : (h.step op).isOk = true) : Next h (h.after op) := by
  refine ⟨op, hop, ?_⟩
  unfold Heap.after
  cases hstep : h.step op with
  | ok h' => rfl
  | error p =>
    rw [hstep] at hok
    cases hok

/-- Ten bytes and twelve bytes are allocated in an empty heap. -/
def twoObjects : Heap := ((Heap.start zeroed).after (.malloc 10 0x1000 0x2000)).after (.malloc 12 0x3000 0x4000)

/-- Both are freed again, the first one without its size. -/
def bothFreed : Heap := (twoObjects.after (.freeS 0x2000 0)).after (.freeS 0x2010 12)

/-- They were in one page, and it is given back with the second. -/
theorem malloc_runs_freed : Relation.ReflTransGen Next (.start zeroed) bothFreed ∧
    twoObjects.live = {0x2000, 0x2010} ∧ bothFreed.live = ∅ ∧ bothFreed.held = {0x1000} ∧
    (∃ g, Inv none bothFreed g) ∧ ∀ op, bothFreed.Allowed op → ∃ h', bothFreed.step op = .ok h' := by
  have hfirst : Next (.start zeroed) ((Heap.start zeroed).after (.malloc 10 0x1000 0x2000)) :=
    next_after ⟨by decide, ⟨by decide, by decide⟩, ⟨by decide, by decide⟩, by decide⟩ (by decide +kernel)
  have hsecond : Next ((Heap.start zeroed).after (.malloc 10 0x1000 0x2000)) twoObjects :=
    next_after ⟨by decide, ⟨by decide, by decide +kernel⟩, ⟨by decide, by decide +kernel⟩, by decide⟩
      (by decide +kernel)
  have hfree : Next twoObjects (twoObjects.after (.freeS 0x2000 0)) :=
    next_after ⟨by decide +kernel, 16, by decide +kernel, by decide⟩ (by decide +kernel)
  have hlast : Next (twoObjects.after (.freeS 0x2000 0)) bothFreed :=
    next_after ⟨by decide +kernel, 16, by decide +kernel, by decide⟩ (by decide +kernel)
  have hrun := (((Relation.ReflTransGen.single hfirst).tail hsecond).tail hfree).tail hlast
  obtain ⟨-, -, hinv, -, -, hnone⟩ := malloc_runs hrun
  exact ⟨hrun, by decide +kernel, by decide +kernel, by decide +kernel, hinv, hnone⟩

end Linux011.Mm.Malloc
