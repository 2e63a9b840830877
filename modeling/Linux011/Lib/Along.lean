import Mathlib.Order.Defs.Unbundled
import Linux011.Lib.Wp

/-!
# Routines that move along a relation

`Ends x P s` says that `x`, run from `s`, ends in `P`, whether it returns or stops. A routine
is `Along R` if from every state it ends where `R` leads. For a preorder this is kept by
everything programs are made of, so it is enough to look at the steps.

* `along_pure`, `along_throw`, `along_get`, `along_modify` — steps;
* `Along.bind`, `Along.ite`, `Along.whenever` — programs;
* `ends_both` — what ends in two places is in both.
-/

namespace Linux011.Lib

variable {ε σ α β : Type}

/-- Where `x` ends `P` holds, also if it stops. -/
def Ends (x : EStateM ε σ α) (P : σ → Prop) (s : σ) : Prop := wp x (fun _ => P) (fun _ => P) s

theorem Ends.mono {x : EStateM ε σ α} {P P' : σ → Prop} {s : σ} (h : Ends x P s) (hP : ∀ t, P t → P' t) :
    Ends x P' s :=
  wp_mono h (fun _ => hP) fun _ => hP

theorem ends_bind {x : EStateM ε σ α} {f : α → EStateM ε σ β} {P : σ → Prop} {s : σ} :
    Ends (x >>= f) P s ↔ wp x (fun a => Ends (f a) P) (fun _ => P) s :=
  wp_bind ..

theorem ends_both {x : EStateM ε σ α} {P P' : σ → Prop} {s : σ} (h : Ends x P s) (h' : Ends x P' s) :
    ∃ t, P t ∧ P' t := by
  unfold Ends wp at h h'
  cases hx : x s with
  | ok _ t =>
    rw [hx] at h h'
    exact ⟨t, h, h'⟩
  | error _ t =>
    rw [hx] at h h'
    exact ⟨t, h, h'⟩

/-- A run of two steps that returns. -/
theorem bind_ok {x : EStateM ε σ α} {f : α → EStateM ε σ β} {s u : σ} {b : β} :
    (x >>= f) s = .ok b u ↔ ∃ a t, x s = .ok a t ∧ f a t = .ok b u := by
  show EStateM.bind x f s = .ok b u ↔ _
  unfold EStateM.bind
  cases x s with
  | ok a t => simp
  | error e t => simp

variable {R : σ → σ → Prop}

/-- From every state `x` ends where `R` leads. -/
def Along (R : σ → σ → Prop) (x : EStateM ε σ α) : Prop := ∀ s, Ends x (R s) s

theorem Along.bind [IsTrans σ R] {x : EStateM ε σ α} {f : α → EStateM ε σ β} (hx : Along R x)
    (hf : ∀ a, Along R (f a)) : Along R (x >>= f) := by
  intro s
  refine ends_bind.mpr (wp_mono (hx s) (fun a t ht => ?_) fun _ _ ht => ht)
  exact (hf a t).mono fun u hu => Trans.trans ht hu

theorem Along.ite {c : Prop} [Decidable c] {x y : EStateM ε σ α} (hx : Along R x) (hy : Along R y) :
    Along R (if c then x else y) := by
  split
  · exact hx
  · exact hy

theorem Along.whenever [Std.Refl R] {c : Prop} [Decidable c] {x : EStateM ε σ Unit} (hx : Along R x) :
    Along R (whenever c x) :=
  hx.ite (refl_of R)

theorem along_pure [Std.Refl R] (a : α) : Along R (pure a : EStateM ε σ α) := refl_of R

theorem along_throw [Std.Refl R] (e : ε) : Along R (throw e : EStateM ε σ α) := refl_of R

theorem along_get [Std.Refl R] : Along R (get : EStateM ε σ σ) := refl_of R

theorem along_modify {f : σ → σ} (h : ∀ s, R s (f s)) : Along R (modify f : EStateM ε σ PUnit) := h

end Linux011.Lib
