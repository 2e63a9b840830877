import Mathlib.Tactic.Common

/-!
# Weakest preconditions for state with early stops

Kernel routines are embedded as `EStateM ε σ α`: a routine either returns
with a new state or stops for a reason of type `ε` (a panic, an exit of the
calling task), the state at the stop kept. `wp x Q E s` says that `x` run
from `s` ends in `Q` when it returns and in `E` when it stops. `EStateM`
programs are functions, so this is total correctness: `wp` never holds
vacuously of a run that does not end.

Main results:

* `wp_bind`, `wp_pure`, `wp_get`, `wp_set`, `wp_modify`, `wp_throw`,
  `wp_ite` — the calculus, as rewrite rules;
* `wp_mono` — consequence; the rule by which a caller uses a callee's
  specification;
* `wp_and` — two specifications of one routine hold together;
* `wp_upTo` — the rule for a counting loop, by an invariant indexed by the
  number of rounds made.
-/

namespace Linux011.Lib

variable {ε σ α β : Type}

/-- `x`, run from `s`, returns into `Q` or stops into `E`. -/
def wp (x : EStateM ε σ α) (Q : α → σ → Prop) (E : ε → σ → Prop) (s : σ) : Prop :=
  match x s with
  | .ok a s' => Q a s'
  | .error e s' => E e s'

instance (x : EStateM ε σ α) (Q : α → σ → Prop) (E : ε → σ → Prop) (s : σ)
    [∀ a t, Decidable (Q a t)] [∀ e t, Decidable (E e t)] : Decidable (wp x Q E s) :=
  match h : x s with
  | .ok a t => decidable_of_iff (Q a t) (by unfold wp; rw [h])
  | .error e t => decidable_of_iff (E e t) (by unfold wp; rw [h])

@[simp] theorem wp_pure (a : α) (Q : α → σ → Prop) (E : ε → σ → Prop) (s : σ) :
    wp (pure a) Q E s ↔ Q a s := Iff.rfl

@[simp] theorem wp_bind (x : EStateM ε σ α) (f : α → EStateM ε σ β)
    (Q : β → σ → Prop) (E : ε → σ → Prop) (s : σ) :
    wp (x >>= f) Q E s ↔ wp x (fun a s' => wp (f a) Q E s') E s := by
  unfold wp
  show (match EStateM.bind x f s with | .ok a s' => Q a s' | .error e s' => E e s') ↔ _
  unfold EStateM.bind
  cases x s <;> exact Iff.rfl

@[simp] theorem wp_map (g : α → β) (x : EStateM ε σ α)
    (Q : β → σ → Prop) (E : ε → σ → Prop) (s : σ) :
    wp (g <$> x) Q E s ↔ wp x (fun a s' => Q (g a) s') E s := by
  unfold wp
  show (match EStateM.map g x s with | .ok a s' => Q a s' | .error e s' => E e s') ↔ _
  unfold EStateM.map
  cases x s <;> exact Iff.rfl

@[simp] theorem wp_get (Q : σ → σ → Prop) (E : ε → σ → Prop) (s : σ) :
    wp (get : EStateM ε σ σ) Q E s ↔ Q s s := Iff.rfl

@[simp] theorem wp_set (s' : σ) (Q : PUnit → σ → Prop) (E : ε → σ → Prop) (s : σ) :
    wp (set s' : EStateM ε σ PUnit) Q E s ↔ Q ⟨⟩ s' := Iff.rfl

@[simp] theorem wp_modify (g : σ → σ) (Q : PUnit → σ → Prop) (E : ε → σ → Prop) (s : σ) :
    wp (modify g : EStateM ε σ PUnit) Q E s ↔ Q ⟨⟩ (g s) := Iff.rfl

@[simp] theorem wp_throw (e : ε) (Q : α → σ → Prop) (E : ε → σ → Prop) (s : σ) :
    wp (throw e : EStateM ε σ α) Q E s ↔ E e s := Iff.rfl

/-- A conditional: each branch under its own condition. -/
theorem wp_ite {c : Prop} [Decidable c] (x y : EStateM ε σ α)
    (Q : α → σ → Prop) (E : ε → σ → Prop) (s : σ) :
    wp (if c then x else y) Q E s ↔ (c → wp x Q E s) ∧ (¬ c → wp y Q E s) := by
  split <;> simp_all

/-- `x`, if `c` holds. -/
def whenever (c : Prop) [Decidable c] (x : EStateM ε σ Unit) : EStateM ε σ Unit := if c then x else pure ()

theorem wp_whenever (c : Prop) [Decidable c] (x : EStateM ε σ Unit) (Q : Unit → σ → Prop)
    (E : ε → σ → Prop) (s : σ) : wp (whenever c x) Q E s ↔ if c then wp x Q E s else Q () s := by
  unfold whenever
  split <;> exact Iff.rfl

/-- Consequence. -/
theorem wp_mono {x : EStateM ε σ α} {Q Q' : α → σ → Prop} {E E' : ε → σ → Prop} {s : σ}
    (h : wp x Q E s) (hQ : ∀ a s', Q a s' → Q' a s') (hE : ∀ e s', E e s' → E' e s') :
    wp x Q' E' s := by
  unfold wp at h ⊢
  cases hx : x s with
  | ok a s' => rw [hx] at h; exact hQ a s' h
  | error e s' => rw [hx] at h; exact hE e s' h

/-- A run whose result is known. -/
theorem wp_of_ok {x : EStateM ε σ α} {Q : α → σ → Prop} {E : ε → σ → Prop} {s s' : σ} {a : α}
    (hx : x s = .ok a s') : wp x Q E s ↔ Q a s' := by
  unfold wp
  rw [hx]

/-- What a returning run tells, read back from the specification. -/
theorem wp_ok {x : EStateM ε σ α} {Q : α → σ → Prop} {E : ε → σ → Prop} {s s' : σ} {a : α}
    (h : wp x Q E s) (hx : x s = .ok a s') : Q a s' := by
  unfold wp at h
  rw [hx] at h
  exact h

/-- What a stopping run tells, read back from the specification. -/
theorem wp_error {x : EStateM ε σ α} {Q : α → σ → Prop} {E : ε → σ → Prop} {s s' : σ} {e : ε}
    (h : wp x Q E s) (hx : x s = .error e s') : E e s' := by
  unfold wp at h
  rw [hx] at h
  exact h

/-- The second step is run from where the first has got to. -/
theorem wp_bind_run {x : EStateM ε σ α} {f : α → EStateM ε σ β} {Q : α → σ → Prop} {Q' : β → σ → Prop}
    {E : ε → σ → Prop} {s : σ} (hx : wp x Q E s)
    (hf : ∀ a t, x s = .ok a t → Q a t → wp (f a) Q' E t) : wp (x >>= f) Q' E s := by
  rw [wp_bind]
  cases ht : x s with
  | ok a t => exact (wp_of_ok ht).mpr (hf a t ht (wp_ok hx ht))
  | error e t =>
    have hE := wp_error hx ht
    unfold wp
    rw [ht]
    exact hE

/-- A routine that cannot stop returns. -/
theorem wp_returns {x : EStateM ε σ α} {Q : α → σ → Prop} {E : ε → σ → Prop} {s : σ}
    (h : wp x Q E s) (hE : ∀ e s', ¬ E e s') : ∃ a s', Q a s' := by
  unfold wp at h
  cases hx : x s with
  | ok a s' => rw [hx] at h; exact ⟨a, s', h⟩
  | error e s' => rw [hx] at h; exact absurd h (hE e s')

/-- A routine that cannot stop, and where it returns. -/
theorem wp_runs {x : EStateM ε σ α} {Q : α → σ → Prop} {s : σ} (h : wp x Q (fun _ _ => False) s) :
    ∃ a s', x s = .ok a s' ∧ Q a s' := by
  cases hx : x s with
  | ok a s' => exact ⟨a, s', rfl, wp_ok h hx⟩
  | error e s' => exact (wp_error h hx).elim

/-- Two specifications of one routine hold together. -/
theorem wp_and {x : EStateM ε σ α} {Q Q' : α → σ → Prop} {E E' : ε → σ → Prop} {s : σ}
    (h : wp x Q E s) (h' : wp x Q' E' s) :
    wp x (fun a t => Q a t ∧ Q' a t) (fun e t => E e t ∧ E' e t) s := by
  unfold wp at h h' ⊢
  cases hx : x s with
  | ok a s' => rw [hx] at h h'; exact ⟨h, h'⟩
  | error e s' => rw [hx] at h h'; exact ⟨h, h'⟩

/-! ## Counting loops -/

/-- `for (i = lo ; i < lo + n ; i++) body i`. -/
def upToFrom (body : Nat → EStateM ε σ Unit) (lo : Nat) : Nat → EStateM ε σ Unit
  | 0 => pure ()
  | n + 1 => do
    body lo
    upToFrom body (lo + 1) n

/-- `for (i = 0 ; i < n ; i++) body i`. -/
def upTo (n : Nat) (body : Nat → EStateM ε σ Unit) : EStateM ε σ Unit :=
  upToFrom body 0 n

theorem wp_upToFrom {body : Nat → EStateM ε σ Unit} {I : Nat → σ → Prop} {E : ε → σ → Prop}
    (n lo : Nat)
    (hbody : ∀ i s, lo ≤ i → i < lo + n → I i s → wp (body i) (fun _ => I (i + 1)) E s)
    {s : σ} (hs : I lo s) :
    wp (upToFrom body lo n) (fun _ => I (lo + n)) E s := by
  induction n generalizing lo s with
  | zero => exact hs
  | succ n ih =>
    rw [upToFrom, wp_bind]
    refine wp_mono (hbody lo s (Nat.le_refl _) (by omega) hs) ?_ (fun _ _ h => h)
    intro _ s' hs'
    have h := ih (lo + 1) (fun i t h1 h2 => hbody i t (by omega) (by omega)) hs'
    rw [show lo + (n + 1) = lo + 1 + n by omega]
    exact h

/-- A counting loop keeps an invariant indexed by the rounds made. -/
theorem wp_upTo {body : Nat → EStateM ε σ Unit} {I : Nat → σ → Prop} {E : ε → σ → Prop}
    {n : Nat} (hbody : ∀ i s, i < n → I i s → wp (body i) (fun _ => I (i + 1)) E s)
    {s : σ} (hs : I 0 s) :
    wp (upTo n body) (fun _ => I n) E s := by
  have h := wp_upToFrom (E := E) n 0 (fun i t _ h2 => hbody i t (by omega)) hs
  rw [Nat.zero_add] at h
  exact h

end Linux011.Lib
