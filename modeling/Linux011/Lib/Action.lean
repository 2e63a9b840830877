import Mathlib.Data.List.Basic

/-!
# Actions

Code as the relation between the state it starts in, its result and the state it comes back
in. Where it does not come back there is none. `Ensures` is the triple for it.

Main results:

* `ensures_bind`, `ensures_ite`, `ensures_modify` — the rules;
* `ensures_range` — a loop over consecutive numbers.
-/

namespace Linux011.Lib

/-- The ways in which code may come back. -/
def Action (σ α : Type) : Type := σ → α → σ → Prop

namespace Action

variable {σ α β : Type}

instance : Monad (Action σ) where
  pure a := fun s b s' => b = a ∧ s' = s
  bind x f := fun s b s'' => ∃ a s', x s a s' ∧ f a s' b s''

def read (f : σ → α) : Action σ α := fun s a s' => a = f s ∧ s' = s

def modify (f : σ → σ) : Action σ Unit := fun s _ s' => s' = f s

/-- Nothing is left to run. -/
def panic : Action σ α := fun _ _ _ => False

/-- A task that is alone waits for ever, or not at all. -/
def waitFor (p : σ → Prop) : Action σ Unit := fun s _ s' => p s ∧ s' = s

/-- Whenever `x` comes back from a state with `P`, `Q` holds. -/
def Ensures (x : Action σ α) (P : σ → Prop) (Q : α → σ → Prop) : Prop :=
  ∀ s a s', P s → x s a s' → Q a s'

variable {P P' : σ → Prop} {Q : α → σ → Prop}

theorem Ensures.pre {x : Action σ α} (h : Ensures x P Q) (hP : ∀ s, P' s → P s) :
    Ensures x P' Q :=
  fun s a s' hs hx => h s a s' (hP s hs) hx

theorem ensures_pure {a : α} (h : ∀ s, P s → Q a s) : Ensures (pure a) P Q := by
  intro s b s' hs ⟨hb, hs'⟩
  rw [hb, hs']
  exact h s hs

theorem ensures_bind {R : β → σ → Prop} {x : Action σ β} {f : β → Action σ α}
    (hx : Ensures x P R) (hf : ∀ b, Ensures (f b) (R b) Q) : Ensures (x >>= f) P Q := by
  intro s a s'' hs ⟨b, s', hb, ha⟩
  exact hf b s' a s'' (hx s b s' hs hb) ha

theorem ensures_ite {c : Prop} [Decidable c] {x y : Action σ α} (hx : c → Ensures x P Q)
    (hy : ¬ c → Ensures y P Q) : Ensures (if c then x else y) P Q := by
  split
  · next h => exact hx h
  · next h => exact hy h

/-- A precondition that does not speak of the state. -/
theorem ensures_fact {p : Prop} {x : Action σ α} (h : p → Ensures x P Q) (hp : ∀ s, P s → p) :
    Ensures x P Q :=
  fun s a s' hs hx => h (hp s hs) s a s' hs hx

theorem ensures_panic : Ensures (panic : Action σ α) P Q := fun _ _ _ _ h => h.elim

theorem ensures_read (f : σ → α) : Ensures (read f) P fun a s => P s ∧ a = f s := by
  intro s a s' hs ⟨ha, hs'⟩
  rw [hs']
  exact ⟨hs, ha⟩

theorem ensures_modify {f : σ → σ} {Q : Unit → σ → Prop} (h : ∀ s, P s → Q () (f s)) :
    Ensures (modify f) P Q := by
  intro s a s' hs hs'
  rw [hs']
  exact h s hs

theorem ensures_waitFor {p : σ → Prop} : Ensures (waitFor p) P fun _ => P := by
  intro s a s' hs ⟨_, hs'⟩
  rw [hs']
  exact hs

/-- A loop over consecutive numbers. -/
theorem ensures_range {f : Nat → Action σ Unit} {I : Nat → σ → Prop} (n k : Nat)
    (hf : ∀ i, i < k + n → Ensures (f i) (I i) fun _ => I (i + 1)) :
    Ensures ((List.range' k n).forM f) (I k) fun _ => I (k + n) := by
  induction n generalizing k with
  | zero => exact ensures_pure fun _ h => h
  | succ n ih =>
    rw [List.range'_succ]
    refine ensures_bind (hf k (by omega)) fun _ => ?_
    rw [Nat.add_comm n 1, ← Nat.add_assoc]
    exact ih (k + 1) fun i hi => hf i (by omega)

end Action

end Linux011.Lib
