import Mathlib.Data.List.Nodup
import Mathlib.Logic.Function.Basic
import Mathlib.Tactic.Common

/-!
# Singly linked lists

Nodes of type `ι` carry an optional pointer `next`. `Chain next head l` says that
following the pointers from `head` visits the nodes `l` and then ends.

Main results:

* `Chain.functional`, `Chain.nodup` — the nodes are determined, and none comes twice;
* `Chain.congr`, `Chain.update` — a chain depends on the pointers of its nodes only;
* `Chain.insert` — a node put after another one.
-/

namespace Linux011.Lib

variable {ι : Type} {next next' : ι → Option ι} {head : Option ι} {l l₁ l₂ : List ι} {a b : ι}

/-- The nodes that are reached from `head`, in order. -/
def Chain (next : ι → Option ι) : Option ι → List ι → Prop
  | head, [] => head = none
  | head, a :: l => head = some a ∧ Chain next (next a) l

@[simp] theorem chain_nil : Chain next head [] ↔ head = none := Iff.rfl

@[simp] theorem chain_cons : Chain next head (a :: l) ↔ head = some a ∧ Chain next (next a) l := Iff.rfl

theorem Chain.functional (h₁ : Chain next head l₁) (h₂ : Chain next head l₂) : l₁ = l₂ := by
  induction l₁ generalizing head l₂ with
  | nil =>
    cases l₂ with
    | nil => rfl
    | cons b l₂ => simp_all
  | cons a l₁ ih =>
    cases l₂ with
    | nil => simp_all
    | cons b l₂ =>
      obtain ⟨ha, h₁⟩ := h₁
      obtain ⟨hb, h₂⟩ := h₂
      obtain rfl : a = b := Option.some.inj (ha.symm.trans hb)
      rw [ih h₁ h₂]

/-- The chain from a node that is on a chain. -/
theorem Chain.suffix (h : Chain next head (l₁ ++ a :: l₂)) : Chain next (some a) (a :: l₂) := by
  induction l₁ generalizing head with
  | nil => exact ⟨rfl, h.2⟩
  | cons b l₁ ih => exact ih h.2

theorem Chain.nodup (h : Chain next head l) : l.Nodup := by
  induction l generalizing head with
  | nil => exact List.nodup_nil
  | cons a l ih =>
    refine List.nodup_cons.mpr ⟨fun hmem => ?_, ih h.2⟩
    -- a second visit would make the rest as long as the whole
    obtain ⟨l₁, l₂, rfl⟩ := List.append_of_mem hmem
    have hback : Chain next (some a) (a :: (l₁ ++ a :: l₂)) := ⟨rfl, h.2⟩
    have hlen := congrArg List.length (hback.functional (Chain.suffix h.2))
    simp at hlen
    omega

theorem Chain.congr (h : Chain next head l) (hn : ∀ a ∈ l, next' a = next a) : Chain next' head l := by
  induction l generalizing head with
  | nil => exact h
  | cons a l ih =>
    refine ⟨h.1, ?_⟩
    rw [hn a List.mem_cons_self]
    exact ih h.2 fun b hb => hn b (List.mem_cons_of_mem a hb)

variable [DecidableEq ι]

theorem Chain.update {v : Option ι} (h : Chain next head l) (hb : b ∉ l) :
    Chain (Function.update next b v) head l := by
  refine h.congr fun a ha => Function.update_of_ne ?_ ..
  rintro rfl
  exact hb ha

/-- A node that is not on the chain is put after `a`. -/
theorem Chain.insert (h : Chain next head (l₁ ++ a :: l₂)) (hb : b ∉ l₁ ++ a :: l₂) :
    Chain (Function.update (Function.update next b (next a)) a (some b)) head (l₁ ++ a :: b :: l₂) := by
  have hnodup := h.nodup
  induction l₁ generalizing head with
  | nil =>
    have hab : b ≠ a := by
      rintro rfl
      exact hb List.mem_cons_self
    have ha : a ∉ l₂ := (List.nodup_cons.mp hnodup).1
    have hb₂ : b ∉ l₂ := fun hmem => hb (List.mem_cons_of_mem a hmem)
    refine ⟨h.1, Function.update_self .., ?_⟩
    rw [Function.update_of_ne hab, Function.update_self]
    exact (h.2.update hb₂).update ha
  | cons c l₁ ih =>
    have hca : c ≠ a := by
      rintro rfl
      simp at hnodup
    have hcb : c ≠ b := by
      rintro rfl
      exact hb List.mem_cons_self
    refine ⟨h.1, ?_⟩
    rw [Function.update_of_ne hca, Function.update_of_ne hcb]
    exact ih h.2 (fun hmem => hb (List.mem_cons_of_mem c hmem)) (List.nodup_cons.mp hnodup).2

end Linux011.Lib
