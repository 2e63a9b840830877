import Mathlib.Algebra.BigOperators.Group.Finset.Basic
import Mathlib.Algebra.Order.BigOperators.Group.Finset
import Mathlib.Data.Finset.Card
import Mathlib.Data.Finset.Prod
import Mathlib.Logic.Function.Basic

/-!
# Counting references

A reference count is meant to equal the number of cells that refer to the
counted object. Here the cells are a finite set `S` of indices, each holding
an optional reference; `refs S cell f` counts those that refer to `f`.

Main results:

* `refs_update` — writing one cell moves the count by the reference dropped
  and the reference taken;
* `refs_pos_iff` — a count is positive exactly when some cell refers;
* `count_filterMap_range` — the references of numbered cells, as a list;
* `sum_update`, `add_le_sum` — counts that are summed over holders;
* `refs_le_card` — if the cells that refer to `f` carry distinct tags from a
  set `T`, there are at most `T.card` of them.
-/

namespace Linux011.Lib

variable {ι β : Type} [DecidableEq β]

/-- The number of cells of `S` that refer to `f`. -/
def refs (S : Finset ι) (cell : ι → Option β) (f : β) : Nat :=
  (S.filter fun i => cell i = some f).card

theorem refs_pos_iff {S : Finset ι} {cell : ι → Option β} {f : β} :
    0 < refs S cell f ↔ ∃ i ∈ S, cell i = some f := by
  unfold refs
  rw [Finset.card_pos]
  constructor
  · rintro ⟨i, hi⟩
    exact ⟨i, (Finset.mem_filter.mp hi).1, (Finset.mem_filter.mp hi).2⟩
  · rintro ⟨i, hi, h⟩
    exact ⟨i, Finset.mem_filter.mpr ⟨hi, h⟩⟩

theorem refs_eq_zero_iff {S : Finset ι} {cell : ι → Option β} {f : β} :
    refs S cell f = 0 ↔ ∀ i ∈ S, cell i ≠ some f := by
  have h : refs S cell f = 0 ↔ ¬ 0 < refs S cell f := by omega
  rw [h, refs_pos_iff]
  push Not
  exact Iff.rfl

/-- Writing one cell: the reference it held is dropped, the new one taken. -/
theorem refs_update [DecidableEq ι] {S : Finset ι} {cell : ι → Option β} {i : ι} (hi : i ∈ S)
    (v : Option β) (f : β) :
    refs S (Function.update cell i v) f + (if cell i = some f then 1 else 0) =
      refs S cell f + (if v = some f then 1 else 0) := by
  unfold refs
  rw [← Finset.insert_erase hi, Finset.filter_insert, Finset.filter_insert]
  have hrest : (S.erase i).filter (fun k => Function.update cell i v k = some f) =
      (S.erase i).filter (fun k => cell k = some f) := by
    apply Finset.filter_congr
    intro k hk
    rw [Function.update_of_ne (Finset.ne_of_mem_erase hk)]
  have hnot : i ∉ (S.erase i).filter (fun k => cell k = some f) := by
    intro h
    exact absurd rfl (Finset.ne_of_mem_erase (Finset.mem_filter.mp h).1)
  rw [hrest, Function.update_self]
  split <;> split <;> simp only [Finset.card_insert_of_notMem hnot, Nat.add_zero]

/-- Cells that are numbered, as a list of references. -/
theorem count_filterMap_range (n : Nat) (cell : Nat → Option β) (f : β) :
    ((List.range n).filterMap cell).count f = refs (Finset.range n) cell f := by
  induction n with
  | zero => rfl
  | succ n ih =>
    have hnot : n ∉ (Finset.range n).filter fun i => cell i = some f := fun h =>
      absurd (Finset.mem_range.mp (Finset.mem_filter.mp h).1) (Nat.lt_irrefl n)
    rw [List.range_succ, List.filterMap_append, List.count_append, ih]
    unfold refs
    rw [Finset.range_add_one, Finset.filter_insert]
    cases hn : cell n with
    | none => simp [hn]
    | some x =>
      by_cases hx : x = f
      · subst hx
        rw [if_pos rfl, Finset.card_insert_of_notMem hnot]
        simp [hn]
      · rw [if_neg (by simpa using hx)]
        simp [hn, hx]

/-- Cells that refer to `f` and carry distinct tags from `T` number at most
`T.card`. -/
theorem refs_le_card {τ : Type} [DecidableEq τ] {S : Finset ι} {cell : ι → Option β} {f : β}
    {T : Finset τ} (tag : ι → τ)
    (hT : ∀ i ∈ S, cell i = some f → tag i ∈ T)
    (hinj : ∀ i ∈ S, ∀ k ∈ S, cell i = some f → cell k = some f → tag i = tag k → i = k) :
    refs S cell f ≤ T.card := by
  unfold refs
  apply Finset.card_le_card_of_injOn tag
  · intro i hi
    obtain ⟨hiS, hif⟩ := Finset.mem_filter.mp hi
    exact hT i hiS hif
  · intro i hi k hk hik
    obtain ⟨hiS, hif⟩ := Finset.mem_filter.mp hi
    obtain ⟨hkS, hkf⟩ := Finset.mem_filter.mp hk
    exact hinj i hiS k hkS hif hkf hik

/-- A sum over holders, when one of them changes. -/
theorem sum_update [DecidableEq ι] {γ : Type} {S : Finset ι} {i : ι} (hi : i ∈ S) (G : ι → γ)
    (g : γ) (f : γ → Nat) :
    ∑ x ∈ S, f (Function.update G i g x) + f (G i) = ∑ x ∈ S, f (G x) + f g := by
  rw [← Finset.add_sum_erase _ _ hi, ← Finset.add_sum_erase _ (fun x => f (G x)) hi]
  have hrest : ∑ x ∈ S.erase i, f (Function.update G i g x) = ∑ x ∈ S.erase i, f (G x) := by
    refine Finset.sum_congr rfl ?_
    intro x hx
    rw [Function.update_of_ne (Finset.ne_of_mem_erase hx)]
  rw [hrest, Function.update_self]
  omega

/-- Two holders hold no more than all. -/
theorem add_le_sum [DecidableEq ι] {S : Finset ι} {i j : ι} (hi : i ∈ S) (hj : j ∈ S)
    (hij : i ≠ j) (f : ι → Nat) : f i + f j ≤ ∑ x ∈ S, f x := by
  rw [← Finset.add_sum_erase _ _ hi]
  have h : f j ≤ ∑ x ∈ S.erase i, f x :=
    Finset.single_le_sum (fun _ _ => Nat.zero_le _) (Finset.mem_erase.mpr ⟨hij.symm, hj⟩)
  omega

end Linux011.Lib
