import Linux011.Lib.Wp

/-!
# Two runs side by side

`Agree R x y s s'` says that `x` run from `s` and `y` run from `s'` both return,
with results and states in relation `R`, or both stop. As with `wp`, a run that
does not end is not possible.

* `agree_bind` — sequencing;
* `agree_wp` — a specification of each run may be added to what is known of both;
* `agree_stops` — two routines that never return agree.
-/

namespace Linux011.Lib

variable {ε σ α β γ δ : Type}

/-- Both return into `R`, or both stop. -/
def Agree (R : α → σ → β → σ → Prop) (x : EStateM ε σ α) (y : EStateM ε σ β) (s s' : σ) : Prop :=
  match x s, y s' with
  | .ok a t, .ok b t' => R a t b t'
  | .error _ _, .error _ _ => True
  | _, _ => False

variable {R : α → σ → β → σ → Prop} {Q : γ → σ → δ → σ → Prop} {x : EStateM ε σ α}
  {y : EStateM ε σ β} {f : α → EStateM ε σ γ} {g : β → EStateM ε σ δ} {s s' : σ}

theorem agree_congr {x' : EStateM ε σ α} {y' : EStateM ε σ β} (hx : x s = x' s) (hy : y s' = y' s')
    (h : Agree R x' y' s s') : Agree R x y s s' := by
  unfold Agree at h ⊢
  rw [hx, hy]
  exact h

/-- Two runs whose results are known. -/
theorem agree_of_ok {a : α} {b : β} {t t' : σ} (hx : x s = .ok a t) (hy : y s' = .ok b t') :
    Agree R x y s s' ↔ R a t b t' := by
  unfold Agree
  rw [hx, hy]

/-- The first parts of both, and the rest. -/
theorem agree_bind (h : Agree R x y s s')
    (hrest : ∀ a t b t', R a t b t' → Agree Q (f a) (g b) t t') :
    Agree Q (x >>= f) (y >>= g) s s' := by
  unfold Agree at h ⊢
  show match EStateM.bind x f s, EStateM.bind y g s' with
    | .ok a t, .ok b t' => Q a t b t'
    | .error _ _, .error _ _ => True
    | _, _ => False
  unfold EStateM.bind
  cases hx : x s with
  | ok a t =>
    cases hy : y s' with
    | ok b t' =>
      rw [hx, hy] at h
      exact hrest a t b t' h
    | error e t' =>
      rw [hx, hy] at h
      exact h.elim
  | error e t =>
    cases hy : y s' with
    | ok b t' =>
      rw [hx, hy] at h
      exact h.elim
    | error e' t' => trivial

@[simp] theorem agree_get_bind {f : σ → EStateM ε σ γ} {g : σ → EStateM ε σ δ} :
    Agree Q (get >>= f) (get >>= g) s s' ↔ Agree Q (f s) (g s') s s' := Iff.rfl

/-- The first part of one of the two is known. -/
theorem agree_bind_right {z : EStateM ε σ γ} {b : β} {t' : σ} {P : γ → σ → δ → σ → Prop}
    (hy : y s' = .ok b t') (h : Agree P z (g b) s t') : Agree P z (y >>= g) s s' := by
  unfold Agree at h ⊢
  show match z s, EStateM.bind y g s' with
    | .ok a t, .ok b t' => P a t b t'
    | .error _ _, .error _ _ => True
    | _, _ => False
  unfold EStateM.bind
  rw [hy]
  exact h

theorem agree_mono {R' : α → σ → β → σ → Prop} (h : Agree R x y s s')
    (hR : ∀ a t b t', R a t b t' → R' a t b t') : Agree R' x y s s' := by
  unfold Agree at h ⊢
  cases hx : x s with
  | ok a t =>
    cases hy : y s' with
    | ok b t' =>
      rw [hx, hy] at h
      exact hR a t b t' h
    | error e t' =>
      rw [hx, hy] at h
      exact h
  | error e t =>
    cases hy : y s' with
    | ok b t' =>
      rw [hx, hy] at h
      exact h
    | error e' t' => trivial

/-- What is known of each run by itself. -/
theorem agree_wp {P : α → σ → Prop} {P' : β → σ → Prop} {E E' : ε → σ → Prop}
    (h : Agree R x y s s') (hx : wp x P E s) (hy : wp y P' E' s') :
    Agree (fun a t b t' => R a t b t' ∧ P a t ∧ P' b t') x y s s' := by
  unfold Agree at h ⊢
  unfold wp at hx hy
  cases hxs : x s with
  | ok a t =>
    cases hys : y s' with
    | ok b t' =>
      rw [hxs] at hx
      rw [hys] at hy
      rw [hxs, hys] at h
      exact ⟨h, hx, hy⟩
    | error e t' =>
      rw [hxs, hys] at h
      exact h
  | error e t =>
    cases hys : y s' with
    | ok b t' =>
      rw [hxs, hys] at h
      exact h
    | error e' t' => trivial

/-- A routine that never returns. -/
def Stops (x : EStateM ε σ α) : Prop := ∀ s, ∃ e t, x s = .error e t

theorem stops_throw (e : ε) : Stops (throw e : EStateM ε σ α) := fun s => ⟨e, s, rfl⟩

theorem stops_bind (x : EStateM ε σ α) (h : ∀ a, Stops (f a)) : Stops (x >>= f) := by
  intro s
  show ∃ e t, EStateM.bind x f s = .error e t
  unfold EStateM.bind
  cases hx : x s with
  | ok a t => exact h a t
  | error e t => exact ⟨e, t, rfl⟩

theorem agree_stops (hx : Stops x) (hy : Stops y) : Agree R x y s s' := by
  obtain ⟨e, t, hx⟩ := hx s
  obtain ⟨e', t', hy⟩ := hy s'
  unfold Agree
  rw [hx, hy]
  trivial

end Linux011.Lib
