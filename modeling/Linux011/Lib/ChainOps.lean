import Linux011.Lib.Chain

/-!
# Operations on singly linked lists

What loops and assignments of pointers do to the list of the nodes, so that their users
reason about lists only.

* `walk` — the search loop that also keeps the node before the one it is at;
* `Chain.delete` — a node is taken out behind another one;
* `thread` — nodes at equal distances are linked to each other.
-/

namespace Linux011.Lib

section Walk

variable {ι : Type} {next : ι → Option ι} {head : Option ι} {l l₁ l₂ : List ι} {a b : ι} {test : ι → Bool}

/-- From the node `cur` on, the first one that passes the test, and the node
before it; `none` when the fuel is used up before the end. -/
def walk (test : ι → Bool) (next : ι → Option ι) : Nat → Option ι → Option ι → Option (Option ι × Option ι)
  | _, prev, none => some (prev, none)
  | 0, _, some _ => none
  | fuel + 1, prev, some a => if test a then some (prev, some a) else walk test next fuel (some a) (next a)

/-- The node before the one that comes after `l`. -/
def before (prev : Option ι) (l : List ι) : Option ι := l.getLast?.or prev

theorem before_cons (prev : Option ι) : before prev (a :: l) = before (some a) l := by
  cases l with
  | nil => rfl
  | cons b l => simp [before, List.getLast?_cons]

/-- No node passes the test. -/
theorem walk_none {fuel : Nat} {prev : Option ι} (h : Chain next head l) (hfuel : l.length ≤ fuel)
    (htest : ∀ a ∈ l, test a = false) : walk test next fuel prev head = some (before prev l, none) := by
  induction l generalizing head prev fuel with
  | nil =>
    cases h
    cases fuel <;> rfl
  | cons a l ih =>
    obtain ⟨rfl, hrest⟩ := h
    cases fuel with
    | zero => simp at hfuel
    | succ fuel =>
      rw [walk, htest a List.mem_cons_self, before_cons]
      exact ih hrest (Nat.le_of_succ_le_succ hfuel) fun b hb => htest b (List.mem_cons_of_mem a hb)

/-- The first node that passes. -/
theorem walk_some {fuel : Nat} {prev : Option ι} (h : Chain next head (l₁ ++ a :: l₂))
    (hfuel : (l₁ ++ a :: l₂).length ≤ fuel) (htest : ∀ b ∈ l₁, test b = false) (ha : test a = true) :
    walk test next fuel prev head = some (before prev l₁, some a) := by
  induction l₁ generalizing head prev fuel with
  | nil =>
    obtain ⟨rfl, -⟩ := h
    cases fuel with
    | zero => simp at hfuel
    | succ fuel =>
      rw [walk, ha]
      rfl
  | cons b l₁ ih =>
    obtain ⟨rfl, hrest⟩ := h
    cases fuel with
    | zero => simp at hfuel
    | succ fuel =>
      rw [walk, htest b List.mem_cons_self, before_cons]
      exact ih hrest (Nat.le_of_succ_le_succ hfuel) fun c hc => htest c (List.mem_cons_of_mem b hc)

/-- A list either has a first element that passes, or none passes. -/
theorem first_or_none (test : ι → Bool) (l : List ι) :
    (∃ l₁ a l₂, l = l₁ ++ a :: l₂ ∧ (∀ b ∈ l₁, test b = false) ∧ test a = true) ∨ ∀ a ∈ l, test a = false := by
  induction l with
  | nil => exact Or.inr fun a ha => by cases ha
  | cons a l ih =>
    cases ha : test a with
    | true => exact Or.inl ⟨[], a, l, rfl, fun _ => List.not_mem_nil.elim, ha⟩
    | false =>
      rcases ih with ⟨l₁, b, l₂, rfl, hfail, hb⟩ | hnone
      · refine Or.inl ⟨a :: l₁, b, l₂, rfl, ?_, hb⟩
        intro c hc
        rcases List.mem_cons.mp hc with rfl | hc
        · exact ha
        · exact hfail c hc
      · refine Or.inr ?_
        intro c hc
        rcases List.mem_cons.mp hc with rfl | hc
        · exact ha
        · exact hnone c hc

/-- What the node before `a` points to. -/
theorem Chain.next_before (h : Chain next head (l₁ ++ b :: a :: l₂)) : next b = some a := h.suffix.2.1

theorem before_concat (prev : Option ι) (l : List ι) : before prev (l ++ [a]) = some a := by
  simp [before]

variable [DecidableEq ι]

/-- The node after `b` is taken out. -/
theorem Chain.delete (h : Chain next head (l₁ ++ b :: a :: l₂)) :
    Chain (Function.update next b (next a)) head (l₁ ++ b :: l₂) := by
  have hnodup := h.nodup
  induction l₁ generalizing head with
  | nil =>
    obtain ⟨hhead, -, hrest⟩ := h
    have hb : b ∉ l₂ := fun hmem => (List.nodup_cons.mp hnodup).1 (List.mem_cons_of_mem a hmem)
    refine ⟨hhead, ?_⟩
    rw [Function.update_self]
    exact hrest.update hb
  | cons c l₁ ih =>
    obtain ⟨hhead, hrest⟩ := h
    have hcb : c ≠ b := by
      rintro rfl
      simp at hnodup
    refine ⟨hhead, ?_⟩
    rw [Function.update_of_ne hcb]
    exact ih hrest (List.nodup_cons.mp hnodup).2

end Walk

section Thread

/-- The nodes `p`, `p + d`, … are linked to each other, `i + 1` of them, and the
last one to `last`. -/
def thread (f : Nat → Option Nat) (p d : Nat) (last : Option Nat) : Nat → Nat → Option Nat
  | 0 => Function.update f p last
  | i + 1 => thread (Function.update f p (some (p + d))) (p + d) d last i

/-- These nodes. -/
def evenly (p d i : Nat) : List Nat := (List.range (i + 1)).map fun j => p + d * j

variable {f : Nat → Option Nat} {p d i a : Nat} {last : Option Nat} {l : List Nat}

theorem mem_evenly : a ∈ evenly p d i ↔ ∃ j ≤ i, a = p + d * j := by
  unfold evenly
  rw [List.mem_map]
  constructor
  · rintro ⟨j, hj, rfl⟩
    exact ⟨j, Nat.le_of_lt_succ (List.mem_range.mp hj), rfl⟩
  · rintro ⟨j, hj, rfl⟩
    exact ⟨j, List.mem_range.mpr (Nat.lt_succ_of_le hj), rfl⟩

theorem length_evenly : (evenly p d i).length = i + 1 := by
  unfold evenly
  rw [List.length_map, List.length_range]

theorem evenly_succ : evenly p d (i + 1) = p :: evenly (p + d) d i := by
  unfold evenly
  rw [List.range_succ_eq_map, List.map_cons, List.map_map, Nat.mul_zero, Nat.add_zero]
  congr 1
  refine List.map_congr_left ?_
  intro j _
  show p + d * (j + 1) = p + d + d * j
  rw [Nat.mul_succ]
  omega

theorem thread_of_not_mem (h : a ∉ evenly p d i) : thread f p d last i a = f a := by
  induction i generalizing f p with
  | zero =>
    rw [thread, Function.update_of_ne]
    rintro rfl
    exact h (mem_evenly.mpr ⟨0, Nat.le_refl 0, rfl⟩)
  | succ i ih =>
    rw [evenly_succ] at h
    rw [thread, ih fun hmem => h (List.mem_cons_of_mem p hmem), Function.update_of_ne]
    rintro rfl
    exact h List.mem_cons_self

theorem chain_thread (hd : 0 < d) (h : Chain f last l) (hl : ∀ a ∈ l, a ∉ evenly p d i) :
    Chain (thread f p d last i) (some p) (evenly p d i ++ l) := by
  induction i generalizing f p with
  | zero =>
    have hp : p ∈ evenly p d 0 := mem_evenly.mpr ⟨0, Nat.le_refl 0, rfl⟩
    refine ⟨rfl, ?_⟩
    show Chain (Function.update f p last) (Function.update f p last p) l
    rw [Function.update_self]
    exact h.update fun hmem => hl _ hmem hp
  | succ i ih =>
    have hp : p ∉ evenly (p + d) d i := by
      intro hmem
      obtain ⟨j, -, hj⟩ := mem_evenly.mp hmem
      omega
    rw [evenly_succ] at hl ⊢
    refine ⟨rfl, ?_⟩
    rw [thread, thread_of_not_mem hp, Function.update_self]
    refine ih (h.update fun hmem => hl _ hmem List.mem_cons_self) ?_
    exact fun a ha hmem => hl a ha (List.mem_cons_of_mem p hmem)

attribute [irreducible] thread evenly

end Thread

end Linux011.Lib
