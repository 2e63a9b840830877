import Linux011.Mm.Malloc
import Mathlib.Algebra.BigOperators.Group.Finset.Basic
import Mathlib.Algebra.Order.BigOperators.Group.Finset

/-!
# Kernel malloc — the invariant

What holds between calls, for given lists of the descriptors on each chain, of
the unused descriptors, and of the free objects of each bucket, and that every
part of `malloc` and `free_s` keeps it.

* `Inv` — the invariant; one bucket may be named that has no live object;
* `Inv.takeObject`, `Inv.newBucket`, `Inv.initBucketDesc` — the parts of
  `malloc`;
* `Inv.putObject`, `Inv.unlink` — those of `free_s`.
-/

namespace Linux011.Mm.Malloc

open Lib

/-- The lists that the pointers describe. -/
structure Lists where
  chain  : Nat → List Nat
  unused : List Nat
  free   : Nat → List Nat

/-- The index of the last descriptor of a page. -/
def last : Nat := pageSize / descSize - 1

/-- A descriptor on the chain of a size. -/
def Lists.On (g : Lists) (z d : Nat) : Prop := z ∈ bucketDir ∧ d ∈ g.chain z

/-- The descriptors in the pages `P`. -/
def IsDesc (P : Finset Nat) (d : Nat) : Prop := ∃ p ∈ P, d ∈ evenly p descSize last

/-- An object of a page of objects of size `z`. -/
def Slot (page z o : Nat) : Prop := pageOf o = page ∧ z ∣ o

/-- The live objects of a page. -/
def Heap.liveOn (h : Heap) (page : Nat) : Finset Nat := h.live.filter fun o => pageOf o = page

/-- The invariant; the bucket `idle` may be without a live object. -/
structure Inv (idle : Option Nat) (h : Heap) (g : Lists) : Prop where
  chain   : ∀ z ∈ bucketDir, Chain h.next (h.chain z) (g.chain z)
  unused  : Chain h.next h.freeBucketDesc g.unused
  apart   : ∀ z z' d, g.On z d → g.On z' d → z = z'
  inUse   : ∀ z d, g.On z d → d ∉ g.unused
  all     : ∀ d, IsDesc h.descPages d ↔ d ∈ g.unused ∨ ∃ z, g.On z d
  aligned : ∀ p ∈ h.descPages, pageSize ∣ p
  size    : ∀ z d, g.On z d → h.bucketSize d = z
  page    : ∀ z d, g.On z d → pageSize ∣ h.page d ∧ h.page d ∉ h.descPages
  pages   : ∀ z z' d d', g.On z d → g.On z' d' → h.page d = h.page d' → d = d'
  free    : ∀ z d, g.On z d → Chain h.word (h.freeptr d) (g.free d)
  slots   : ∀ z d, g.On z d → ∀ o, o ∈ g.free d ↔ Slot (h.page d) z o ∧ o ∉ h.live
  refcnt  : ∀ z d, g.On z d → h.refcnt d = (h.liveOn (h.page d)).card
  busy    : ∀ z d, g.On z d → some d ≠ idle → 0 < h.refcnt d
  live    : ∀ o ∈ h.live, ∃ z d, g.On z d ∧ Slot (h.page d) z o ∧ bucketOf (h.asked o) = some z
  held    : ∀ p, p ∈ h.held ↔ p ∈ h.descPages ∨ ∃ z d, g.On z d ∧ h.page d = p

variable {idle : Option Nat} {h : Heap} {g : Lists} {z d o p : Nat}

/-! ## Pages and sizes -/

theorem size_dvd (hz : z ∈ bucketDir) : z ∣ pageSize := by
  revert z
  decide

theorem size_pos (hz : z ∈ bucketDir) : 0 < z := by
  revert z
  decide

theorem pageOf_eq_iff (hp : pageSize ∣ p) : pageOf o = p ↔ p ≤ o ∧ o < p + pageSize := by
  obtain ⟨q, rfl⟩ := hp
  unfold pageOf pageSize
  constructor
  · intro h
    omega
  · rintro ⟨h1, h2⟩
    have hdiv : o / 4096 = q := by omega
    rw [hdiv, Nat.mul_comm]

/-- The objects of a page. -/
theorem slot_iff (hz : z ∈ bucketDir) (hp : pageSize ∣ p) : Slot p z o ↔ o ∈ evenly p z (pageSize / z - 1) := by
  have hpos := size_pos hz
  have hzp : z ∣ p := (size_dvd hz).trans hp
  obtain ⟨n, hn⟩ := size_dvd hz
  have hquot : pageSize / z = n := by rw [hn, Nat.mul_div_cancel_left n hpos]
  have hn0 : n ≠ 0 := by
    rintro rfl
    cases hn
  unfold Slot
  rw [pageOf_eq_iff hp, mem_evenly, hquot]
  constructor
  · rintro ⟨⟨hlo, hhi⟩, hdvd⟩
    obtain ⟨j, hj⟩ := (Nat.dvd_sub hdvd hzp : z ∣ o - p)
    have hlt : z * j < z * n := by omega
    exact ⟨j, by have := Nat.lt_of_mul_lt_mul_left hlt; omega, by omega⟩
  · rintro ⟨j, hj, rfl⟩
    have hlt : z * j < z * n := Nat.mul_lt_mul_of_pos_left (by omega) hpos
    exact ⟨⟨by omega, by omega⟩, Nat.dvd_add hzp (Nat.dvd_mul_right z j)⟩

/-- The page of a descriptor. -/
theorem pageOf_desc (hp : pageSize ∣ p) (hd : d ∈ evenly p descSize last) : pageOf d = p := by
  obtain ⟨j, hj, rfl⟩ := mem_evenly.mp hd
  rw [pageOf_eq_iff hp]
  unfold last descSize pageSize at *
  omega

theorem isDesc_insert (P : Finset Nat) :
    IsDesc (insert p P) d ↔ d ∈ evenly p descSize last ∨ IsDesc P d := by
  unfold IsDesc
  simp only [Finset.mem_insert, or_and_right, exists_or, exists_eq_left]

/-! ## Who is where -/

/-- Objects of different buckets are different. -/
theorem Inv.ne_of_ne (I : Inv idle h g) {z z' d d' o o' : Nat} (hd : g.On z d) (hd' : g.On z' d') (hne : d' ≠ d)
    (ho : pageOf o = h.page d) (ho' : pageOf o' = h.page d') : o' ≠ o := by
  rintro rfl
  exact hne (I.pages z' z d' d hd' hd (ho'.symm.trans ho))

theorem Inv.page_ne (I : Inv idle h g) {z z' d d' o : Nat} (hd : g.On z d) (hd' : g.On z' d') (hne : d' ≠ d)
    (ho : pageOf o = h.page d) : pageOf o ≠ h.page d' := by
  intro heq
  exact hne (I.pages z' z d' d hd' hd (heq.symm.trans ho))

/-- A chain is no longer than there are descriptors. -/
theorem Inv.length_le (I : Inv idle h g) (hz : z ∈ bucketDir) : (g.chain z).length ≤ h.descs := by
  have hnodup := (I.chain z hz).nodup
  have hsub : (g.chain z).toFinset ⊆ h.descPages.biUnion fun p =>
      (evenly p descSize last).toFinset := by
    intro d hd
    obtain ⟨p, hp, hmem⟩ := (I.all d).mpr (Or.inr ⟨z, hz, List.mem_toFinset.mp hd⟩)
    exact Finset.mem_biUnion.mpr ⟨p, hp, List.mem_toFinset.mpr hmem⟩
  have hcard := (Finset.card_le_card hsub).trans Finset.card_biUnion_le
  rw [List.toFinset_card_of_nodup hnodup] at hcard
  refine hcard.trans ((Finset.sum_le_card_nsmul _ _ (pageSize / descSize) ?_).trans (Nat.le_of_eq rfl))
  intro p _
  refine (List.toFinset_card_le _).trans ?_
  rw [length_evenly]
  decide

/-! ## malloc -/

theorem mem_liveOn : o ∈ h.liveOn p ↔ o ∈ h.live ∧ pageOf o = p := by
  unfold Heap.liveOn
  rw [Finset.mem_filter]

/-- The first free object of a bucket becomes live. -/
theorem Inv.takeObject (I : Inv idle h g) (hd : g.On z d) (hidle : ∀ e, idle = some e → e = d) {len : Nat}
    (hlen : bucketOf len = some z) (ho : h.freeptr d = some o) :
    o ∉ h.live ∧ Inv none ⟨Malloc.takeObject h.toMem d o, insert o h.live, Function.update h.asked o len⟩
      { g with free := Function.update g.free d (g.free d).tail } := by
  have hchain := I.free z d hd
  have hnodup := hchain.nodup
  have hslots := I.slots z d hd
  rw [ho] at hchain
  obtain ⟨rest, hfree⟩ : ∃ rest, g.free d = o :: rest := by
    cases hl : g.free d with
    | nil =>
      rw [hl] at hchain
      cases hchain
    | cons a rest =>
      rw [hl] at hchain
      cases hchain.1
      exact ⟨rest, rfl⟩
  rw [hfree] at hchain hnodup hslots ⊢
  obtain ⟨-, hrest⟩ := hchain
  obtain ⟨hnot, -⟩ := List.nodup_cons.mp hnodup
  obtain ⟨hslot, hdead⟩ := (hslots o).mp List.mem_cons_self
  refine ⟨hdead, I.chain, I.unused, I.apart, I.inUse, I.all, I.aligned, I.size, I.page, I.pages, ?_, ?_, ?_, ?_, ?_,
    I.held⟩
  · intro z' d' hd'
    by_cases hdd : d' = d
    · subst hdd
      show Chain h.word (Function.update h.freeptr d' (h.word o) d') (Function.update g.free d' _ d')
      rw [Function.update_self, Function.update_self]
      exact hrest
    · show Chain h.word (Function.update h.freeptr d (h.word o) d') (Function.update g.free d _ d')
      rw [Function.update_of_ne hdd, Function.update_of_ne hdd]
      exact I.free z' d' hd'
  · intro z' d' hd' a
    show a ∈ Function.update g.free d _ d' ↔ Slot (h.page d') z' a ∧ a ∉ insert o h.live
    rw [Finset.mem_insert, not_or]
    by_cases hdd : d' = d
    · subst hdd
      obtain rfl : z' = z := I.apart z' z d' hd' hd
      rw [Function.update_self, List.tail_cons]
      have ha := hslots a
      rw [List.mem_cons] at ha
      constructor
      · intro hmem
        obtain ⟨h1, h2⟩ := ha.mp (Or.inr hmem)
        exact ⟨h1, by rintro rfl; exact hnot hmem, h2⟩
      · rintro ⟨h1, h2, h3⟩
        exact (ha.mpr ⟨h1, h3⟩).resolve_left h2
    · rw [Function.update_of_ne hdd, I.slots z' d' hd' a]
      refine and_congr_right fun hs => ⟨fun hl => ⟨?_, hl⟩, And.right⟩
      exact I.ne_of_ne hd hd' hdd hslot.1 hs.1
  · intro z' d' hd'
    show Function.update h.refcnt d (h.refcnt d + 1) d' = ((insert o h.live).filter fun a => pageOf a = h.page d').card
    rw [Finset.filter_insert]
    by_cases hdd : d' = d
    · subst hdd
      rw [Function.update_self, if_pos hslot.1, Finset.card_insert_of_notMem, I.refcnt z' d' hd']
      · rfl
      · exact fun hmem => hdead (Finset.mem_filter.mp hmem).1
    · rw [Function.update_of_ne hdd, if_neg (I.page_ne hd hd' hdd hslot.1)]
      exact I.refcnt z' d' hd'
  · intro z' d' hd' _
    show 0 < Function.update h.refcnt d (h.refcnt d + 1) d'
    by_cases hdd : d' = d
    · subst hdd
      rw [Function.update_self]
      exact Nat.succ_pos _
    · rw [Function.update_of_ne hdd]
      refine I.busy z' d' hd' ?_
      intro he
      exact hdd (hidle d' he.symm)
  · intro a ha
    show ∃ z d, g.On z d ∧ Slot (h.page d) z a ∧ bucketOf (Function.update h.asked o len a) = some z
    by_cases hao : a = o
    · subst hao
      exact ⟨z, d, hd, hslot, by rw [Function.update_self]; exact hlen⟩
    · rw [Function.update_of_ne hao]
      exact I.live a ((Finset.mem_insert.mp ha).resolve_left hao)

/-- A page that is not held has no descriptor in use. -/
theorem Inv.not_mem_fresh (I : Inv idle h g) (hp : h.Free p) (hd : IsDesc h.descPages d) :
    d ∉ evenly p descSize last := by
  obtain ⟨q, hq, hmem⟩ := hd
  intro hnew
  have hpq := (pageOf_desc hp.1 hnew).symm.trans (pageOf_desc (I.aligned q hq) hmem)
  rw [hpq] at hp
  exact hp.2 ((I.held q).mpr (Or.inl hq))

theorem Inv.page_ne_fresh (I : Inv idle h g) (hp : h.Free p) (hd : g.On z d) : h.page d ≠ p := by
  rintro rfl
  exact hp.2 ((I.held _).mpr (Or.inr ⟨z, d, hd, rfl⟩))

/-- A page of descriptors, all of them unused. -/
theorem Inv.initBucketDesc (I : Inv idle h g) (hp : h.Free p) :
    Inv idle ⟨Malloc.initBucketDesc h.toMem p, h.live, h.asked⟩
      { g with unused := evenly p descSize last ++ g.unused } := by
  have hold : ∀ d, d ∈ g.unused ∨ (∃ z, g.On z d) → d ∉ evenly p descSize last :=
    fun d hd => I.not_mem_fresh hp ((I.all d).mpr hd)
  refine ⟨?_, ?_, I.apart, ?_, ?_, ?_, I.size, ?_, I.pages, I.free, I.slots, I.refcnt, I.busy, I.live, ?_⟩
  · intro z hz
    show Chain (thread h.next p descSize h.freeBucketDesc last) (h.chain z) (g.chain z)
    exact (I.chain z hz).congr fun d hd => thread_of_not_mem (hold d (Or.inr ⟨z, hz, hd⟩))
  · show Chain (thread h.next p descSize h.freeBucketDesc last) (some p) (evenly p descSize last ++ g.unused)
    exact chain_thread (by decide) I.unused fun d hd => hold d (Or.inl hd)
  · intro z d hd hmem
    rcases List.mem_append.mp hmem with hnew | hun
    · exact hold d (Or.inr ⟨z, hd⟩) hnew
    · exact I.inUse z d hd hun
  · intro d
    show IsDesc (insert p h.descPages) d ↔ d ∈ evenly p descSize last ++ g.unused ∨ ∃ z, g.On z d
    rw [isDesc_insert, I.all d, List.mem_append, or_assoc]
  · intro q hq
    rcases Finset.mem_insert.mp hq with rfl | hq
    · exact hp.1
    · exact I.aligned q hq
  · intro z d hd
    obtain ⟨h1, h2⟩ := I.page z d hd
    refine ⟨h1, fun hmem => ?_⟩
    rcases Finset.mem_insert.mp hmem with heq | hmem
    · exact I.page_ne_fresh hp hd heq
    · exact h2 hmem
  · intro q
    show q ∈ insert p h.held ↔ q ∈ insert p h.descPages ∨ _
    rw [Finset.mem_insert, Finset.mem_insert, I.held q, or_assoc]
    rfl

/-- An unused descriptor becomes the first of a chain; all objects of its page
are free. -/
theorem Inv.newBucket (I : Inv none h g) {rest : List Nat} (hunused : g.unused = d :: rest) (hz : z ∈ bucketDir)
    (hp : h.Free p) :
    Inv (some d) ⟨Malloc.newBucket h.toMem d z p, h.live, h.asked⟩
      { chain := Function.update g.chain z (d :: g.chain z), unused := rest
        free := Function.update g.free d (evenly p z (pageSize / z - 1)) } := by
  have hun := I.unused
  have hnodup := hun.nodup
  rw [hunused] at hun hnodup
  obtain ⟨-, hrest⟩ := hun
  obtain ⟨hdrest, -⟩ := List.nodup_cons.mp hnodup
  -- the descriptor was unused, and nothing lives on the page
  have hnot : ∀ z', ¬ g.On z' d := by
    intro z' hd
    have hmem := I.inUse z' d hd
    rw [hunused] at hmem
    exact hmem List.mem_cons_self
  have hne : ∀ z' d', g.On z' d' → d' ≠ d := by
    rintro z' d' hd rfl
    exact hnot z' hd
  have hlive : ∀ o ∈ h.live, pageOf o ≠ p := by
    intro o ho hpage
    obtain ⟨z', d', hd', hslot, -⟩ := I.live o ho
    exact I.page_ne_fresh hp hd' (hslot.1.symm.trans hpage)
  -- in use are the new descriptor and those that were
  have hon : ∀ z' d', (Lists.mk (Function.update g.chain z (d :: g.chain z)) rest
      (Function.update g.free d (evenly p z (pageSize / z - 1)))).On z' d' ↔ (z' = z ∧ d' = d) ∨ g.On z' d' := by
    intro z' d'
    unfold Lists.On
    dsimp only
    by_cases hzz : z' = z
    · subst hzz
      rw [Function.update_self, List.mem_cons]
      tauto
    · rw [Function.update_of_ne hzz]
      tauto
  refine ⟨?_, hrest.update hdrest, ?_, ?_, ?_, I.aligned, ?_, ?_, ?_, ?_, ?_, ?_, ?_, ?_, ?_⟩
  · intro z' hz'
    show Chain (Function.update h.next d (h.chain z)) (Function.update h.chain z (some d) z')
      (Function.update g.chain z (d :: g.chain z) z')
    by_cases hzz : z' = z
    · subst hzz
      rw [Function.update_self, Function.update_self]
      refine ⟨rfl, ?_⟩
      rw [Function.update_self]
      exact (I.chain z' hz').update fun hmem => hnot z' ⟨hz', hmem⟩
    · rw [Function.update_of_ne hzz, Function.update_of_ne hzz]
      exact (I.chain z' hz').update fun hmem => hnot z' ⟨hz', hmem⟩
  · intro z₁ z₂ d' h1 h2
    rcases (hon z₁ d').mp h1 with ⟨h3, h4⟩ | h3
    · rcases (hon z₂ d').mp h2 with ⟨h5, -⟩ | h5
      · exact h3.trans h5.symm
      · exact absurd h4 (hne z₂ d' h5)
    · rcases (hon z₂ d').mp h2 with ⟨-, h5⟩ | h5
      · exact absurd h5 (hne z₁ d' h3)
      · exact I.apart z₁ z₂ d' h3 h5
  · intro z' d' hd' hmem
    rcases (hon z' d').mp hd' with ⟨rfl, rfl⟩ | hd'
    · exact hdrest hmem
    · refine I.inUse z' d' hd' ?_
      rw [hunused]
      exact List.mem_cons_of_mem d hmem
  · intro d'
    show IsDesc h.descPages d' ↔ _
    rw [I.all d', hunused, List.mem_cons]
    constructor
    · rintro ((rfl | hmem) | ⟨z', hd'⟩)
      · exact Or.inr ⟨z, (hon z d').mpr (Or.inl ⟨rfl, rfl⟩)⟩
      · exact Or.inl hmem
      · exact Or.inr ⟨z', (hon z' d').mpr (Or.inr hd')⟩
    · rintro (hmem | ⟨z', hd'⟩)
      · exact Or.inl (Or.inr hmem)
      · rcases (hon z' d').mp hd' with ⟨-, rfl⟩ | hd'
        · exact Or.inl (Or.inl rfl)
        · exact Or.inr ⟨z', hd'⟩
  · intro z' d' hd'
    show Function.update h.bucketSize d z d' = z'
    rcases (hon z' d').mp hd' with ⟨rfl, rfl⟩ | hd'
    · exact Function.update_self ..
    · rw [Function.update_of_ne (hne z' d' hd')]
      exact I.size z' d' hd'
  · intro z' d' hd'
    show pageSize ∣ Function.update h.page d p d' ∧ Function.update h.page d p d' ∉ h.descPages
    rcases (hon z' d').mp hd' with ⟨rfl, rfl⟩ | hd'
    · rw [Function.update_self]
      exact ⟨hp.1, fun hmem => hp.2 ((I.held p).mpr (Or.inl hmem))⟩
    · rw [Function.update_of_ne (hne z' d' hd')]
      exact I.page z' d' hd'
  · intro z₁ z₂ d₁ d₂ h1 h2
    show Function.update h.page d p d₁ = Function.update h.page d p d₂ → d₁ = d₂
    rcases (hon z₁ d₁).mp h1 with ⟨-, h3⟩ | h3
    · rcases (hon z₂ d₂).mp h2 with ⟨-, h4⟩ | h4
      · exact fun _ => h3.trans h4.symm
      · rw [h3, Function.update_self, Function.update_of_ne (hne z₂ d₂ h4)]
        exact fun heq => absurd heq.symm (I.page_ne_fresh hp h4)
    · rcases (hon z₂ d₂).mp h2 with ⟨-, h4⟩ | h4
      · rw [h4, Function.update_self, Function.update_of_ne (hne z₁ d₁ h3)]
        exact fun heq => absurd heq (I.page_ne_fresh hp h3)
      · rw [Function.update_of_ne (hne z₁ d₁ h3), Function.update_of_ne (hne z₂ d₂ h4)]
        exact I.pages z₁ z₂ d₁ d₂ h3 h4
  · intro z' d' hd'
    show Chain (thread h.word p z none (pageSize / z - 1)) (Function.update h.freeptr d (some p) d')
      (Function.update g.free d _ d')
    rcases (hon z' d').mp hd' with ⟨rfl, rfl⟩ | hd'
    · rw [Function.update_self, Function.update_self]
      have hthread := chain_thread (f := h.word) (p := p) (i := pageSize / z' - 1) (l := []) (size_pos hz) rfl
        fun a ha => by cases ha
      rw [List.append_nil] at hthread
      exact hthread
    · rw [Function.update_of_ne (hne z' d' hd'), Function.update_of_ne (hne z' d' hd')]
      refine (I.free z' d' hd').congr fun o ho => thread_of_not_mem fun hmem => ?_
      have hslot := ((I.slots z' d' hd' o).mp ho).1
      exact I.page_ne_fresh hp hd' (hslot.1.symm.trans ((slot_iff hz hp.1).mpr hmem).1)
  · intro z' d' hd' o
    show o ∈ Function.update g.free d _ d' ↔ Slot (Function.update h.page d p d') z' o ∧ o ∉ h.live
    rcases (hon z' d').mp hd' with ⟨rfl, rfl⟩ | hd'
    · rw [Function.update_self, Function.update_self, ← slot_iff hz hp.1]
      exact ⟨fun hs => ⟨hs, fun ho => hlive o ho hs.1⟩, And.left⟩
    · rw [Function.update_of_ne (hne z' d' hd'), Function.update_of_ne (hne z' d' hd')]
      exact I.slots z' d' hd' o
  · intro z' d' hd'
    show Function.update h.refcnt d 0 d' = (h.live.filter fun o => pageOf o = Function.update h.page d p d').card
    rcases (hon z' d').mp hd' with ⟨rfl, rfl⟩ | hd'
    · rw [Function.update_self, Function.update_self, Finset.filter_false_of_mem hlive, Finset.card_empty]
    · rw [Function.update_of_ne (hne z' d' hd'), Function.update_of_ne (hne z' d' hd')]
      exact I.refcnt z' d' hd'
  · intro z' d' hd' hidle
    show 0 < Function.update h.refcnt d 0 d'
    rcases (hon z' d').mp hd' with ⟨rfl, rfl⟩ | hd'
    · exact absurd rfl hidle
    · rw [Function.update_of_ne (hne z' d' hd')]
      exact I.busy z' d' hd' (Option.some_ne_none d')
  · intro o ho
    obtain ⟨z', d', hd', hslot, hbucket⟩ := I.live o ho
    refine ⟨z', d', (hon z' d').mpr (Or.inr hd'), ?_, hbucket⟩
    show Slot (Function.update h.page d p d') z' o
    rw [Function.update_of_ne (hne z' d' hd')]
    exact hslot
  · intro q
    show q ∈ insert p h.held ↔ q ∈ h.descPages ∨ ∃ z' d', _ ∧ Function.update h.page d p d' = q
    rw [Finset.mem_insert, I.held q]
    constructor
    · rintro (rfl | hq | ⟨z', d', hd', rfl⟩)
      · exact Or.inr ⟨z, d, (hon z d).mpr (Or.inl ⟨rfl, rfl⟩), Function.update_self ..⟩
      · exact Or.inl hq
      · refine Or.inr ⟨z', d', (hon z' d').mpr (Or.inr hd'), ?_⟩
        rw [Function.update_of_ne (hne z' d' hd')]
    · rintro (hq | ⟨z', d', hd', heq⟩)
      · exact Or.inr (Or.inl hq)
      · rcases (hon z' d').mp hd' with ⟨-, rfl⟩ | hd'
        · rw [Function.update_self] at heq
          exact Or.inl heq.symm
        · rw [Function.update_of_ne (hne z' d' hd')] at heq
          exact Or.inr (Or.inr ⟨z', d', hd', heq⟩)

/-! ## free_s -/

/-- A live object goes in front of the free ones of its bucket. -/
theorem Inv.putObject (I : Inv none h g) (hd : g.On z d) (ho : o ∈ h.live) (hslot : Slot (h.page d) z o) :
    Inv (some d) ⟨Malloc.putObject h.toMem d o, h.live.erase o, h.asked⟩
      { g with free := Function.update g.free d (o :: g.free d) } := by
  have hnot : ∀ z' d', g.On z' d' → o ∉ g.free d' := by
    intro z' d' hd' hmem
    exact ((I.slots z' d' hd' o).mp hmem).2 ho
  refine ⟨I.chain, I.unused, I.apart, I.inUse, I.all, I.aligned, I.size, I.page, I.pages, ?_, ?_, ?_, ?_, ?_, I.held⟩
  · intro z' d' hd'
    show Chain (Function.update h.word o (h.freeptr d)) (Function.update h.freeptr d (some o) d')
      (Function.update g.free d _ d')
    by_cases hdd : d' = d
    · subst hdd
      rw [Function.update_self, Function.update_self]
      refine ⟨rfl, ?_⟩
      rw [Function.update_self]
      exact (I.free z' d' hd').update (hnot z' d' hd')
    · rw [Function.update_of_ne hdd, Function.update_of_ne hdd]
      exact (I.free z' d' hd').update (hnot z' d' hd')
  · intro z' d' hd' a
    show a ∈ Function.update g.free d _ d' ↔ Slot (h.page d') z' a ∧ a ∉ h.live.erase o
    rw [Finset.mem_erase, not_and]
    by_cases hdd : d' = d
    · subst hdd
      obtain rfl : z' = z := I.apart z' z d' hd' hd
      rw [Function.update_self, List.mem_cons, I.slots z' d' hd' a]
      constructor
      · rintro (rfl | ⟨h1, h2⟩)
        · exact ⟨hslot, fun hne => absurd rfl hne⟩
        · exact ⟨h1, fun _ => h2⟩
      · rintro ⟨h1, h2⟩
        by_cases hao : a = o
        · exact Or.inl hao
        · exact Or.inr ⟨h1, h2 hao⟩
    · rw [Function.update_of_ne hdd, I.slots z' d' hd' a]
      refine and_congr_right fun hs => ⟨fun hl _ => hl, fun hl => hl ?_⟩
      exact I.ne_of_ne hd hd' hdd hslot.1 hs.1
  · intro z' d' hd'
    show Function.update h.refcnt d (h.refcnt d - 1) d' = ((h.live.erase o).filter fun a => pageOf a = h.page d').card
    rw [Finset.filter_erase]
    by_cases hdd : d' = d
    · subst hdd
      rw [Function.update_self, Finset.card_erase_of_mem (Finset.mem_filter.mpr ⟨ho, hslot.1⟩), I.refcnt z' d' hd']
      rfl
    · rw [Function.update_of_ne hdd, Finset.erase_eq_of_notMem]
      · exact I.refcnt z' d' hd'
      · exact fun hmem => I.page_ne hd hd' hdd hslot.1 (Finset.mem_filter.mp hmem).2
  · intro z' d' hd' hidle
    have hdd : d' ≠ d := fun heq => hidle (congrArg some heq)
    show 0 < Function.update h.refcnt d (h.refcnt d - 1) d'
    rw [Function.update_of_ne hdd]
    exact I.busy z' d' hd' (Option.some_ne_none d')
  · intro a ha
    exact I.live a (Finset.mem_of_mem_erase ha)

/-- The bucket has a live object left. -/
theorem Inv.settle (I : Inv (some d) h g) (hpos : 0 < h.refcnt d) : Inv none h g :=
  { I with
    busy := by
      intro z' d' hd' _
      by_cases hdd : d' = d
      · rw [hdd]
        exact hpos
      · exact I.busy z' d' hd' fun heq => hdd (Option.some.inj heq) }

/-- The bucket has none; its descriptor is taken out of the chain, and its page
goes back. -/
theorem Inv.release (I : Inv (some d) h g) (hd : g.On z d) (hzero : h.refcnt d = 0) {l₁ l₂ : List Nat}
    (hsplit : g.chain z = l₁ ++ d :: l₂) (chain next : Nat → Option Nat) (hchain : Chain next (chain z) (l₁ ++ l₂))
    (hothers : ∀ z' ∈ bucketDir, z' ≠ z → Chain next (chain z') (g.chain z'))
    (hunused : Chain next (some d) (d :: g.unused)) :
    Inv none ⟨{ h.toMem with chain := chain, next := next, freeBucketDesc := some d, held := h.held.erase (h.page d) },
      h.live, h.asked⟩ { g with chain := Function.update g.chain z (l₁ ++ l₂), unused := d :: g.unused } := by
  have hnodup := (I.chain z hd.1).nodup
  rw [hsplit] at hnodup
  have hdl : d ∉ l₁ ++ l₂ := by
    rw [List.nodup_middle] at hnodup
    exact (List.nodup_cons.mp hnodup).1
  -- the count is 0: nothing lives on the page
  have hlive : ∀ o ∈ h.live, pageOf o ≠ h.page d := by
    intro o ho hpage
    have hcard := I.refcnt z d hd
    rw [hzero] at hcard
    have hempty := Finset.card_eq_zero.mp hcard.symm
    exact Finset.notMem_empty o (hempty ▸ mem_liveOn.mpr ⟨ho, hpage⟩)
  -- in use are those that were, but for this one
  have hon : ∀ z' d', (Lists.mk (Function.update g.chain z (l₁ ++ l₂)) (d :: g.unused) g.free).On z' d' ↔
      g.On z' d' ∧ d' ≠ d := by
    intro z' d'
    unfold Lists.On
    dsimp only
    by_cases hzz : z' = z
    · subst hzz
      rw [Function.update_self, hsplit]
      constructor
      · rintro ⟨h1, h2⟩
        refine ⟨⟨h1, ?_⟩, by rintro rfl; exact hdl h2⟩
        rw [List.mem_append] at h2
        rw [List.mem_append, List.mem_cons]
        tauto
      · rintro ⟨⟨h1, h2⟩, h3⟩
        refine ⟨h1, ?_⟩
        rw [List.mem_append, List.mem_cons] at h2
        rw [List.mem_append]
        tauto
    · rw [Function.update_of_ne hzz]
      refine ⟨fun h1 => ⟨h1, ?_⟩, And.left⟩
      rintro rfl
      exact hzz (I.apart z' z d' h1 hd)
  refine ⟨?_, hunused, ?_, ?_, ?_, I.aligned, ?_, ?_, ?_, ?_, ?_, ?_, ?_, ?_, ?_⟩
  · intro z' hz'
    show Chain next (chain z') (Function.update g.chain z (l₁ ++ l₂) z')
    by_cases hzz : z' = z
    · subst hzz
      rw [Function.update_self]
      exact hchain
    · rw [Function.update_of_ne hzz]
      exact hothers z' hz' hzz
  · intro z₁ z₂ d' h1 h2
    exact I.apart z₁ z₂ d' ((hon z₁ d').mp h1).1 ((hon z₂ d').mp h2).1
  · intro z' d' hd' hmem
    obtain ⟨hd', hne⟩ := (hon z' d').mp hd'
    exact I.inUse z' d' hd' ((List.mem_cons.mp hmem).resolve_left hne)
  · intro d'
    show IsDesc h.descPages d' ↔ _
    rw [I.all d', List.mem_cons]
    constructor
    · rintro (hmem | ⟨z', hd'⟩)
      · exact Or.inl (Or.inr hmem)
      · by_cases hdd : d' = d
        · exact Or.inl (Or.inl hdd)
        · exact Or.inr ⟨z', (hon z' d').mpr ⟨hd', hdd⟩⟩
    · rintro ((rfl | hmem) | ⟨z', hd'⟩)
      · exact Or.inr ⟨z, hd⟩
      · exact Or.inl hmem
      · exact Or.inr ⟨z', ((hon z' d').mp hd').1⟩
  · exact fun z' d' hd' => I.size z' d' ((hon z' d').mp hd').1
  · exact fun z' d' hd' => I.page z' d' ((hon z' d').mp hd').1
  · exact fun z₁ z₂ d₁ d₂ h1 h2 => I.pages z₁ z₂ d₁ d₂ ((hon z₁ d₁).mp h1).1 ((hon z₂ d₂).mp h2).1
  · exact fun z' d' hd' => I.free z' d' ((hon z' d').mp hd').1
  · exact fun z' d' hd' => I.slots z' d' ((hon z' d').mp hd').1
  · exact fun z' d' hd' => I.refcnt z' d' ((hon z' d').mp hd').1
  · intro z' d' hd' _
    obtain ⟨hd', hne⟩ := (hon z' d').mp hd'
    exact I.busy z' d' hd' fun heq => hne (Option.some.inj heq)
  · intro o ho
    obtain ⟨z', d', hd', hslot, hbucket⟩ := I.live o ho
    refine ⟨z', d', (hon z' d').mpr ⟨hd', ?_⟩, hslot, hbucket⟩
    rintro rfl
    exact hlive o ho hslot.1
  · intro q
    show q ∈ h.held.erase (h.page d) ↔ _
    rw [Finset.mem_erase, I.held q]
    constructor
    · rintro ⟨hne, hq | ⟨z', d', hd', rfl⟩⟩
      · exact Or.inl hq
      · refine Or.inr ⟨z', d', (hon z' d').mpr ⟨hd', ?_⟩, rfl⟩
        rintro rfl
        exact hne rfl
    · rintro (hq | ⟨z', d', hd', rfl⟩)
      · exact ⟨by rintro rfl; exact (I.page z d hd).2 hq, Or.inl hq⟩
      · obtain ⟨hd', hne⟩ := (hon z' d').mp hd'
        exact ⟨fun heq => hne (I.pages z' z d' d hd' hd heq), Or.inr ⟨z', d', hd', rfl⟩⟩

end Linux011.Mm.Malloc
