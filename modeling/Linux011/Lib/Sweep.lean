import Mathlib.Order.Defs.LinearOrder
import Mathlib.Order.Basic
import Mathlib.Data.List.Pairwise
import Mathlib.Tactic.Common
import Mathlib.Order.Lattice

/-!
# Elevator order

Keys of a linear order, served in an ascending sweep that may be followed by a second
one. A new key goes to the first gap where it fits, or to the gap where the second sweep
begins if it comes before that one; else to the end.

* `elevate` — the insertion;
* `sweeps_elevate` — it keeps the list within two sweeps;
* `elevate_apart_iff` — whether it keeps the smaller keys before a class of greater ones.
-/

namespace Linux011.Lib

variable {α : Type} [LinearOrder α] {x a b : α} {l : List α}

/-- One ascending sweep, and at most one further. -/
def Sweeps (l : List α) : Prop :=
  ∃ u v, l = u ++ v ∧ u.Pairwise (· < ·) ∧ v.Pairwise (· < ·)

/-- Insertion of `x` after the head. -/
def elevate (x : α) : List α → List α
  | [] => [x]
  | [a] => [a, x]
  | a :: b :: l =>
    if (a < x ∨ ¬ a < b) ∧ x < b then a :: x :: b :: l else a :: elevate x (b :: l)

theorem elevate_cons (x a : α) (l : List α) : ∃ m, elevate x (a :: l) = a :: m := by
  cases l with
  | nil => exact ⟨[x], rfl⟩
  | cons b l =>
    unfold elevate
    split
    · exact ⟨_, rfl⟩
    · exact ⟨_, rfl⟩

theorem elevate_perm (x : α) (l : List α) : (elevate x l).Perm (x :: l) := by
  fun_induction elevate x l with
  | case1 => exact .refl _
  | case2 a => exact .swap x a []
  | case3 a b l h => exact .swap x a _
  | case4 a b l h ih => exact (ih.cons a).trans (.swap x a _)

theorem Sweeps.cons (h : Sweeps (b :: l)) (hab : a < b) : Sweeps (a :: b :: l) := by
  obtain ⟨u, v, heq, hu, hv⟩ := h
  cases u with
  | nil =>
    refine ⟨[a], v, by rw [heq]; rfl, List.pairwise_singleton .., hv⟩
  | cons c u =>
    obtain ⟨rfl, rfl⟩ := List.cons.inj heq
    refine ⟨a :: b :: u, v, rfl, ?_, hv⟩
    refine List.pairwise_cons.mpr ⟨fun c hc => ?_, hu⟩
    rcases List.mem_cons.mp hc with rfl | hc
    · exact hab
    · exact hab.trans ((List.pairwise_cons.mp hu).1 c hc)

/-- After a descent the rest is one sweep. -/
theorem Sweeps.descent (h : Sweeps (a :: b :: l)) (hab : ¬ a < b) :
    (b :: l).Pairwise (· < ·) := by
  obtain ⟨u, v, heq, hu, hv⟩ := h
  cases u with
  | nil =>
    rw [← show a :: b :: l = v from heq] at hv
    exact (List.pairwise_cons.mp hv).2
  | cons c u =>
    obtain ⟨rfl, hrest⟩ := List.cons.inj heq
    cases u with
    | nil =>
      rw [show b :: l = v from hrest]
      exact hv
    | cons d u =>
      obtain ⟨rfl, -⟩ := List.cons.inj hrest
      exact absurd ((List.pairwise_cons.mp hu).1 b List.mem_cons_self) hab

theorem Sweeps.tail (h : Sweeps (a :: l)) : Sweeps l := by
  obtain ⟨u, v, heq, hu, hv⟩ := h
  cases u with
  | nil =>
    rw [← show a :: l = v from heq] at hv
    exact ⟨[], l, rfl, .nil, (List.pairwise_cons.mp hv).2⟩
  | cons c u =>
    obtain ⟨-, rfl⟩ := List.cons.inj heq
    exact ⟨u, v, rfl, (List.pairwise_cons.mp hu).2, hv⟩

/-- Into one sweep: in order, or a smaller key at the end. -/
theorem elevate_sorted (h : (a :: l).Pairwise (· < ·)) (hx : x ∉ a :: l) :
    (elevate x (a :: l)).Pairwise (· < ·) ∨ x < a ∧ elevate x (a :: l) = a :: l ++ [x] := by
  induction l generalizing a with
  | nil =>
    rcases lt_trichotomy x a with hlt | rfl | hgt
    · exact Or.inr ⟨hlt, rfl⟩
    · exact absurd List.mem_cons_self hx
    · exact Or.inl (by simpa [elevate] using hgt)
  | cons b l ih =>
    obtain ⟨ha, hl⟩ := List.pairwise_cons.mp h
    have hab : a < b := ha b List.mem_cons_self
    have hne : x ≠ a := fun heq => hx (heq ▸ List.mem_cons_self)
    have hx' : x ∉ b :: l := fun hmem => hx (List.mem_cons_of_mem a hmem)
    unfold elevate
    split
    · next hgap =>
      have hax : a < x := hgap.1.resolve_right (not_not.mpr hab)
      refine Or.inl (List.pairwise_cons.mpr ⟨?_, List.pairwise_cons.mpr ⟨?_, hl⟩⟩)
      · intro c hc
        rcases List.mem_cons.mp hc with rfl | hc
        · exact hax
        · exact ha c hc
      · intro c hc
        rcases List.mem_cons.mp hc with rfl | hc
        · exact hgap.2
        · exact hgap.2.trans ((List.pairwise_cons.mp hl).1 c hc)
    · next hgap =>
      rcases ih hl hx' with hsorted | ⟨hxb, hend⟩
      · rcases lt_or_gt_of_ne hne with hlt | hgt
        · -- then `x` is below `b` too, and there is no place for it
          have hxb := hlt.trans hab
          obtain ⟨m, hm⟩ := elevate_cons x b l
          have hmem : x ∈ elevate x (b :: l) := (elevate_perm x (b :: l)).symm.subset List.mem_cons_self
          rw [hm] at hmem hsorted
          rcases List.mem_cons.mp hmem with rfl | hmem
          · exact absurd rfl hxb.ne
          · exact absurd ((List.pairwise_cons.mp hsorted).1 x hmem) hxb.asymm
        · refine Or.inl (List.pairwise_cons.mpr ⟨fun c hc => ?_, hsorted⟩)
          rcases List.mem_cons.mp ((elevate_perm x (b :: l)).subset hc) with rfl | hc
          · exact hgt
          · exact ha c hc
      · have hxa : x < a := by
          by_contra hge
          exact hgap ⟨Or.inl (lt_of_le_of_ne (not_lt.mp hge) hne.symm), hxb⟩
        exact Or.inr ⟨hxa, by rw [hend]; rfl⟩

theorem sweeps_elevate (h : Sweeps l) (hx : x ∉ l) : Sweeps (elevate x l) := by
  induction l with
  | nil => exact ⟨[x], [], rfl, List.pairwise_singleton .., .nil⟩
  | cons a l ih =>
    have hx' : x ∉ l := fun hmem => hx (List.mem_cons_of_mem a hmem)
    cases l with
    | nil => exact ⟨[a], [x], rfl, List.pairwise_singleton .., List.pairwise_singleton ..⟩
    | cons b l =>
      by_cases hab : a < b
      · unfold elevate
        split
        · next hgap =>
          have hax : a < x := hgap.1.resolve_right (not_not.mpr hab)
          exact (h.tail.cons hgap.2).cons hax
        · obtain ⟨m, hm⟩ := elevate_cons x b l
          have hrest := ih h.tail hx'
          rw [hm] at hrest ⊢
          exact hrest.cons hab
      · -- the second sweep begins at `b`
        have hsorted := h.descent hab
        unfold elevate
        split
        · next hgap =>
          refine ⟨[a], x :: b :: l, rfl, List.pairwise_singleton .., ?_⟩
          refine List.pairwise_cons.mpr ⟨fun c hc => ?_, hsorted⟩
          rcases List.mem_cons.mp hc with rfl | hc
          · exact hgap.2
          · exact hgap.2.trans ((List.pairwise_cons.mp hsorted).1 c hc)
        · next hgap =>
          rcases elevate_sorted hsorted hx' with hrest | ⟨hxb, -⟩
          · exact ⟨[a], _, rfl, List.pairwise_singleton .., hrest⟩
          · exact absurd ⟨Or.inr hab, hxb⟩ hgap

/-! ## A class of keys, above the others -/

/-- After one key of the class there are only such. -/
def Apart (w : α → Prop) (l : List α) : Prop := l.Pairwise fun a b => w a → w b

/-- A key of the class comes after `a`, and no gap up to the first takes `x`. -/
def Late (w : α → Prop) (x : α) : α → List α → Prop
  | _, [] => False
  | a, b :: l => ¬ ((a < x ∨ ¬ a < b) ∧ x < b) ∧ (w b ∨ Late w x b l)

variable {w : α → Prop} {m : List α}

theorem elevate_tail (hm : elevate x (a :: l) = a :: m) {c : α} (hc : c ∈ m) : c = x ∨ c ∈ l := by
  have hperm : (a :: m).Perm (a :: x :: l) := hm ▸ (elevate_perm x (a :: l)).trans (.swap a x l)
  exact List.mem_cons.mp ((List.Perm.cons_inv hperm).subset hc)

/-- A key that is not of the class. -/
theorem elevate_apart_iff (hl : Apart w l) (hx : ¬ w x)
    (hm : elevate x (a :: l) = a :: m) : Apart w m ↔ ¬ Late w x a l := by
  induction l generalizing a m with
  | nil =>
    obtain rfl : [x] = m := (List.cons.inj hm).2
    simp [Apart, Late]
  | cons b l ih =>
    obtain ⟨hb, hl'⟩ := List.pairwise_cons.mp hl
    unfold elevate at hm
    unfold Late
    split at hm
    · next hgap =>
      obtain rfl : x :: b :: l = m := (List.cons.inj hm).2
      exact iff_of_true (List.pairwise_cons.mpr ⟨fun c _ hwx => absurd hwx hx, hl⟩) fun h => h.1 hgap
    · next hgap =>
      obtain ⟨m', hm'⟩ := elevate_cons x b l
      obtain rfl : b :: m' = m := hm'.symm.trans (List.cons.inj hm).2
      have hmem : x ∈ m' := by
        have hperm : (b :: m').Perm (b :: x :: l) :=
          hm' ▸ (elevate_perm x (b :: l)).trans (.swap b x l)
        exact (List.Perm.cons_inv hperm).symm.subset List.mem_cons_self
      by_cases hwb : w b
      · refine iff_of_false (fun h => ?_) fun h => h ⟨hgap, Or.inl hwb⟩
        exact hx ((List.pairwise_cons.mp h).1 x hmem hwb)
      · have hrest := ih hl' hm'
        constructor
        · intro h hlate
          exact hrest.mp (List.pairwise_cons.mp h).2 (hlate.2.resolve_left hwb)
        · intro h
          exact List.pairwise_cons.mpr ⟨fun c _ hwb' => absurd hwb' hwb,
            hrest.mpr fun hlate => h ⟨hgap, Or.inr hlate⟩⟩

/-- A key of the class. -/
theorem elevate_apart (hw : ∀ a b, ¬ w a → w b → a < b) (hl : Apart w l) (hx : w x)
    (hm : elevate x (a :: l) = a :: m) : Apart w m := by
  induction l generalizing a m with
  | nil =>
    obtain rfl : [x] = m := (List.cons.inj hm).2
    exact List.pairwise_singleton ..
  | cons b l ih =>
    obtain ⟨hb, hl'⟩ := List.pairwise_cons.mp hl
    unfold elevate at hm
    split at hm
    · next hgap =>
      obtain rfl : x :: b :: l = m := (List.cons.inj hm).2
      have hwb : w b := by
        by_contra hwb
        exact absurd (hw b x hwb hx) hgap.2.asymm
      refine List.pairwise_cons.mpr ⟨fun c hc _ => ?_, hl⟩
      rcases List.mem_cons.mp hc with rfl | hc
      · exact hwb
      · exact hb c hc hwb
    · next hgap =>
      obtain ⟨m', hm'⟩ := elevate_cons x b l
      obtain rfl : b :: m' = m := hm'.symm.trans (List.cons.inj hm).2
      refine List.pairwise_cons.mpr ⟨fun c hc hwb => ?_, ih hl' hm'⟩
      rcases elevate_tail hm' hc with rfl | hc
      · exact hx
      · exact hb c hc hwb

end Linux011.Lib
