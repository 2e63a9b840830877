import Linux011.Lib.Coop

/-!
# A task that runs alone

While one task runs no other does; if it sleeps it is the next to run. Only
interrupts come in between. `Path` is a piece of such a run, with the tagged
actions that were made and the states they were made in; `Returns` says that
code may come back with a result, whatever its caller goes on with.

A task that is alone keeps what it knows across a sleep, as far as interrupts
leave it true. `Alone` is the triple for it. It is `Holds` for a contract whose
ghost is the knowledge itself, so the rules for code of many tasks are the rules
here.

Main results:

* `holds_some` — procedures that call no others;
* `safe_path`, `Holds.returns` — what a contract says of code that returns;
* `alone_pure`, `alone_bind`, `alone_act`, `alone_sleep`, `alone_ask` — the rules;
* `alone_body`, `alone_calls`, `alone_loop` — procedures;
* `Alone.returns` — what a triple says of code that returns.
-/

namespace Linux011.Lib

namespace Kernel

variable {σ τ π ρ α β γ : Type}

/-- From `s`, `p` alone gets to `q` in `s'`, having made the actions `l`. -/
inductive Path (K : Kernel σ τ π ρ) :
    Prog σ τ π ρ → σ → List (τ × σ) → Prog σ τ π ρ → σ → Prop
  | refl {p : Prog σ τ π ρ} {s : σ} : Path K p s [] p s
  | act {tag : Option τ} {u : σ → σ} {next : σ → Prog σ τ π ρ} {s s' : σ} {l : List (τ × σ)}
      {q : Prog σ τ π ρ} (h : Path K (next s) (u s) l q s') :
      Path K (.act tag u next) s ((tag.map fun x => (x, s)).toList ++ l) q s'
  | sleep {next q : Prog σ τ π ρ} {s s' : σ} {l : List (τ × σ)} (h : Path K next s l q s') :
      Path K (.sleep next) s l q s'
  | ask {next : Nat → Prog σ τ π ρ} {q : Prog σ τ π ρ} {s s' : σ} {l : List (τ × σ)} (v : Nat)
      (h : Path K (next v) s l q s') : Path K (.ask next) s l q s'
  | call {p : π} {next : ρ → Prog σ τ π ρ} {q : Prog σ τ π ρ} {s s' : σ} {l : List (τ × σ)}
      (h : Path K (K.body p next) s l q s') : Path K (.call p next) s l q s'
  | interrupt {p q : Prog σ τ π ρ} {s s₁ s' : σ} {l : List (τ × σ)} (he : K.env s s₁)
      (h : Path K p s₁ l q s') : Path K p s l q s'

/-- Run alone from `s`, `x` may come back with `a` in `s'`, having made the
actions `l`. -/
def Returns (K : Kernel σ τ π ρ) (x : Code σ τ π ρ α) (s : σ) (l : List (τ × σ)) (a : α)
    (s' : σ) : Prop :=
  ∀ k, K.Path (x k) s l (k a) s'

theorem Path.trans {K : Kernel σ τ π ρ} {p q r : Prog σ τ π ρ} {s t u : σ} {l m : List (τ × σ)}
    (h : K.Path p s l q t) (h' : K.Path q t m r u) : K.Path p s (l ++ m) r u := by
  induction h with
  | refl => exact h'
  | act _ ih =>
    rw [List.append_assoc]
    exact .act (ih h')
  | sleep _ ih => exact .sleep (ih h')
  | ask v _ ih => exact .ask v (ih h')
  | call _ ih => exact .call (ih h')
  | interrupt he _ ih => exact .interrupt he (ih h')

/-- Up to `n` steps of a program that does not have to wait. -/
def advance (K : Kernel σ τ π ρ) : Nat → Prog σ τ π ρ → σ → Prog σ τ π ρ × List (τ × σ) × σ
  | 0, p, s => (p, [], s)
  | n + 1, .act tag u next, s =>
    let r := advance K n (next s) (u s)
    (r.1, (tag.map fun x => (x, s)).toList ++ r.2.1, r.2.2)
  | n + 1, .call p next, s => advance K n (K.body p next) s
  | _ + 1, .done, s => (.done, [], s)
  | _ + 1, .panic, s => (.panic, [], s)
  | _ + 1, .sleep next, s => (.sleep next, [], s)
  | _ + 1, .ask next, s => (.ask next, [], s)

theorem path_advance (K : Kernel σ τ π ρ) (n : Nat) (p : Prog σ τ π ρ) (s : σ) :
    K.Path p s (K.advance n p s).2.1 (K.advance n p s).1 (K.advance n p s).2.2 := by
  induction n generalizing p s with
  | zero => exact .refl
  | succ n ih =>
    cases p with
    | act tag u next => exact .act (ih (next s) (u s))
    | call q next => exact .call (ih (K.body q next) s)
    | done => exact .refl
    | panic => exact .refl
    | sleep next => exact .refl
    | ask next => exact .refl

/-! ## Contracts -/

variable {K : Kernel σ τ π ρ} {C : Contract K γ} {t : Nat} {P P' : γ → σ → Prop}
  {Q : α → γ → σ → Prop}

/-- A program that keeps a contract keeps it along a path of allowed actions, and each
action is one the contract has checked. -/
theorem safe_path {p q : Prog σ τ π ρ} {s s' : σ} {l : List (τ × σ)} (h : K.Path p s l q s')
    (hl : ∀ e ∈ l, C.allow e.1 e.2) :
    ∃ m, ∀ n G, C.Others t G → Safe C t (n + m) p G s →
      (∃ G', Safe C t n q G' s') ∧ ∀ e ∈ l, ∃ s₁, C.check (some e.1) e.2 s₁ := by
  induction h with
  | refl => exact ⟨0, fun n G _ hs => ⟨⟨G, hs⟩, fun e he => by cases he⟩⟩
  | @act tag u next s s' l q h ih =>
    have hhead : ∀ x, tag = some x → C.allow x s := by
      intro x hx
      exact hl (x, s) (by simp [hx])
    obtain ⟨m, ih⟩ := ih fun e he => hl e (List.mem_append_right _ he)
    refine ⟨m + 1, fun n G ho hs => ?_⟩
    obtain ⟨hcheck, g, hg⟩ := (hs s .refl).2 hhead
    obtain ⟨hend, hrest⟩ := ih n _ (ho.update g) hg
    refine ⟨hend, fun e he => ?_⟩
    rcases List.mem_append.mp he with he | he
    · cases tag with
      | none => cases he
      | some x =>
        obtain rfl : e = (x, s) := by simpa using he
        exact ⟨u s, hcheck⟩
    · exact hrest e he
  | @sleep next q s s' l h ih =>
    obtain ⟨m, ih⟩ := ih hl
    refine ⟨m + 1, fun n G ho hs => ?_⟩
    obtain ⟨hi, -, hnext⟩ := hs s .refl
    exact ih n G ho (hnext G s rfl hi ho)
  | ask v h ih =>
    obtain ⟨m, ih⟩ := ih hl
    exact ⟨m + 1, fun n G ho hs => ih n G ho ((hs _ .refl).2 v)⟩
  | call h ih =>
    obtain ⟨m, ih⟩ := ih hl
    exact ⟨m + 1, fun n G ho hs => ih n G ho (hs _ .refl).2⟩
  | interrupt he h ih =>
    obtain ⟨m, ih⟩ := ih hl
    exact ⟨m, fun n G ho hs => ih n G ho (safe_env hs (.single he))⟩

/-- The call of a procedure is its body. -/
theorem holds_body {n : Nat} {p : π} {P : γ → σ → Prop} {Q : ρ → γ → σ → Prop} (hst : Stable C P)
    (h : Holds C n (K.body p) P Q) : Holds C n (Code.call p) P Q := by
  intro m hm k t G s hi ho hs hk
  cases m with
  | zero => trivial
  | succ m =>
    intro s' he
    have hi' := C.env hi he
    refine ⟨hi', ?_⟩
    exact h m (by omega) k t G s' hi' ho (hst.env hi hs he)
      fun a G' s'' hi'' ho' ha => safe_pred (hk a G' s'' hi'' ho' ha)

/-- Specifications of some procedures at once, which call no others. -/
theorem holds_some {ι : Type} {p : ι → π} {Pre : ι → γ → σ → Prop} {Post : ι → ρ → γ → σ → Prop}
    (hst : ∀ i, Stable C (Pre i))
    (hbody : ∀ n, (∀ i, Holds C n (Code.call (p i)) (Pre i) (Post i)) →
      ∀ i, Holds C n (K.body (p i)) (Pre i) (Post i)) (n : Nat) (i : ι) :
    Holds C n (Code.call (p i)) (Pre i) (Post i) := by
  -- the precondition of a procedure is that it is one of them
  have hall : ∀ m q j, Holds C m (Code.call q) (fun g s => q = p j ∧ Pre j g s) (Post j) := by
    refine holds_call (fun q j => (stable_ghost fun _ => q = p j).and (hst j)) ?_
    intro m ih q j
    refine holds_fact (p := q = p j) ?_ fun _ _ h => h.1
    rintro rfl
    exact (hbody m (fun k => (ih (p k) k).pre fun _ _ h => ⟨rfl, h⟩) j).pre fun _ _ h => h.2
  exact (hall n (p i) i).pre fun _ _ h => ⟨rfl, h⟩

/-- **What a triple says of code that returns.** `rest` is of no use here: a caller may go
on in any way. -/
theorem Holds.returns {x : Code σ τ π ρ α} (hx : ∀ n, Holds C n x P Q)
    (hrest : ∀ g, ¬ C.rest g) {a : α} (hQ : Stable C (Q a)) {G : Nat → γ} {s s' : σ}
    {l : List (τ × σ)} (hi : C.inv G s) (hP : P (G t) s) (hl : ∀ e ∈ l, C.allow e.1 e.2)
    (h : K.Returns x s l a s') (ho : C.Others t G := by exact fun _ _ => trivial) :
    (∃ G', C.inv G' s' ∧ Q a (G' t) s') ∧ ∀ e ∈ l, ∃ s₁, C.check (some e.1) e.2 s₁ := by
  classical
  -- a caller that looks whether the result is `a` and the state is one of those promised
  let R : σ → Prop := fun s'' => ∃ G', C.inv G' s'' ∧ Q a (G' t) s''
  let k : α → Prog σ τ π ρ := fun b =>
    if b = a then .act none id fun s'' => if R s'' then .panic else .done else .panic
  have hpanic : ∀ n G s, C.inv G s → Safe C t n .panic G s := by
    intro n G s hi
    cases n with
    | zero => trivial
    | succ n => exact fun s' he => ⟨C.env hi he, trivial⟩
  have hsafe : ∀ n, Safe C t n (x k) G s := by
    intro n
    refine hx n n (Nat.le_refl n) k t G s hi ho hP ?_
    intro b G₁ s₁ hi₁ _ hb
    by_cases hba : b = a
    · subst hba
      simp only [k, if_true]
      cases n with
      | zero => trivial
      | succ n =>
        intro s₂ he
        have hi₂ := C.env hi₁ he
        refine ⟨hi₂, fun _ => ⟨C.reads G₁ s₂ hi₂, G₁ t, ?_⟩⟩
        have hR : R s₂ := ⟨G₁, hi₂, hQ.env hi₁ hb he⟩
        show Safe C t n (if R s₂ then .panic else .done) _ s₂
        rw [if_pos hR, Function.update_eq_self]
        exact hpanic n G₁ s₂ hi₂
    · simp only [k, if_neg hba]
      exact hpanic n G₁ s₁ hi₁
  obtain ⟨m, hm⟩ := safe_path (t := t) (h k) hl
  obtain ⟨⟨G', hend⟩, hcheck⟩ := hm 2 G ho (hsafe _)
  refine ⟨?_, hcheck⟩
  simp only [k, if_true] at hend
  obtain ⟨-, hact⟩ := hend s' .refl
  obtain ⟨-, g, hdone⟩ := hact fun x hx => by cases hx
  by_contra hR
  have hdone : Safe C t 1 (if R s' then .panic else .done) _ s' := hdone
  rw [if_neg hR] at hdone
  exact hrest _ (hdone s' .refl).2

/-! ## What a task alone knows -/

/-- Something that interrupts leave true. -/
structure Known (K : Kernel σ τ π ρ) where
  holds  : σ → Prop
  stable : ∀ s s', holds s → K.env s s' → holds s'

/-- What is known once `P` was true. -/
def Known.since (K : Kernel σ τ π ρ) (P : σ → Prop) : Known K where
  holds s' := ∃ s, P s ∧ K.Env s s'
  stable _ _ h he := by
    obtain ⟨s, hs, hse⟩ := h
    exact ⟨s, hs, hse.tail he⟩

/-- The ghost of a task that is alone is what it knows; no other has one. -/
def solo (K : Kernel σ τ π ρ) (allow : τ → σ → Prop) : Contract K (Option (Known K)) where
  inv G s := ∀ t k, G t = some k → k.holds s ∧ ∀ t', t' ≠ t → G t' = none
  allow := allow
  check _ _ _ := True
  rest _ := False
  inv_env _ s s' h he t k hk := ⟨k.stable s s' (h t k hk).1 he, (h t k hk).2⟩
  reads _ _ _ := trivial

/-- A task with ghost `g` knows `P`. -/
def Knows (P : σ → Prop) (g : Option (Known K)) : Prop := ∃ k, g = some k ∧ ∀ s, k.holds s → P s

/-- `x` run alone from `P` comes back with `Q`, up to `n` steps, if it makes allowed
actions only. -/
def Alone (K : Kernel σ τ π ρ) (allow : τ → σ → Prop) (n : Nat) (x : Code σ τ π ρ α)
    (P : σ → Prop) (Q : α → σ → Prop) : Prop :=
  Holds (solo K allow) n x (fun g _ => Knows P g) fun a g _ => Knows (Q a) g

/-- An assertion that interrupts leave true. -/
def Lasts (K : Kernel σ τ π ρ) (P : σ → Prop) : Prop := ∀ s s', P s → K.env s s' → P s'

theorem Lasts.env {P : σ → Prop} (hP : Lasts K P) {s s' : σ} (h : P s) (he : K.Env s s') : P s' := by
  induction he with
  | refl => exact h
  | tail _ hs ih => exact hP _ _ ih hs

theorem Lasts.and {P P' : σ → Prop} (hP : Lasts K P) (hP' : Lasts K P') :
    Lasts K fun s => P s ∧ P' s :=
  fun s s' h he => ⟨hP s s' h.1 he, hP' s s' h.2 he⟩

/-- An assertion that does not speak of the state. -/
theorem lasts_fact (p : Prop) : Lasts K fun _ => p := fun _ _ h _ => h

section Rules

variable {allow : τ → σ → Prop} {n : Nat} {P P' : σ → Prop} {Q Q' : α → σ → Prop}

theorem Alone.conseq {x : Code σ τ π ρ α} (h : Alone K allow n x P Q) (hP : ∀ s, P' s → P s)
    (hQ : ∀ a s, Q a s → Q' a s) : Alone K allow n x P' Q' := by
  refine Holds.conseq h ?_ ?_
  · intro g _ ⟨k, hg, hk⟩
    exact ⟨k, hg, fun s hs => hP s (hk s hs)⟩
  · intro a g _ ⟨k, hg, hk⟩
    exact ⟨k, hg, fun s hs => hQ a s (hk s hs)⟩

theorem Alone.pre {x : Code σ τ π ρ α} (h : Alone K allow n x P Q) (hP : ∀ s, P' s → P s) :
    Alone K allow n x P' Q :=
  h.conseq hP fun _ _ ha => ha

theorem alone_pure {a : α} (h : ∀ s, P s → Q a s) :
    Alone K allow n (pure a : Code σ τ π ρ α) P Q := by
  refine holds_pure ?_
  intro G t s _ ⟨k, hg, hk⟩
  exact ⟨k, hg, fun s' hs => h s' (hk s' hs)⟩

theorem alone_bind {R : β → σ → Prop} {x : Code σ τ π ρ β} {f : β → Code σ τ π ρ α}
    (hx : Alone K allow n x P R) (hf : ∀ b, Alone K allow n (f b) (R b) Q) :
    Alone K allow n (x >>= f) P Q :=
  holds_bind hx hf

theorem alone_ite {c : Prop} [Decidable c] {x y : Code σ τ π ρ α}
    (hx : c → Alone K allow n x P Q) (hy : ¬ c → Alone K allow n y P Q) :
    Alone K allow n (if c then x else y) P Q :=
  holds_ite hx hy

theorem alone_when {b : Bool} {x : Code σ τ π ρ Unit} {Q : Unit → σ → Prop}
    (hx : b = true → Alone K allow n x P Q) (hy : ∀ s, P s → b = false → Q () s) :
    Alone K allow n (Code.when b x) P Q :=
  alone_ite hx fun hb => alone_pure fun s hs => hy s hs (by simpa using hb)

/-- A precondition that does not speak of the state. -/
theorem alone_fact {x : Code σ τ π ρ α} {p : Prop} (h : p → Alone K allow n x P Q)
    (hp : ∀ s, P s → p) : Alone K allow n x P Q := by
  intro m hm k t G s hi ho hs hk
  obtain ⟨kn, hg, hkn⟩ := hs
  exact h (hp s (hkn s (hi t kn hg).1)) m hm k t G s hi ho ⟨kn, hg, hkn⟩ hk

/-- Code that nothing is known to reach. -/
theorem alone_false {x : Code σ τ π ρ α} (h : ∀ s, ¬ P s) : Alone K allow n x P Q := by
  intro m _ k t G s hi _ hs _
  obtain ⟨kn, hg, hkn⟩ := hs
  exact absurd (hkn s (hi t kn hg).1) (h s)

theorem alone_panic : Alone K allow n (Code.panic : Code σ τ π ρ α) P Q := holds_panic

/-- Any action. -/
theorem alone_act {tag : Option τ} {u : σ → σ} {f : σ → α} (hQ : ∀ a, Lasts K (Q a))
    (h : ∀ s, P s → (∀ x, tag = some x → allow x s) → Q (f s) (u s)) :
    Alone K allow n (fun k => .act tag u fun s => k (f s) : Code σ τ π ρ α) P Q := by
  refine holds_act (stable_ghost _) ?_
  intro G t s hi _ ⟨k, hg, hk⟩ ha
  obtain ⟨hs, hothers⟩ := hi t k hg
  refine ⟨trivial, some (Known.since K fun s' => s' = u s), ?_, ?_⟩
  · intro t' k' hk'
    by_cases htt : t' = t
    · subst htt
      rw [Function.update_self, Option.some.injEq] at hk'
      subst hk'
      refine ⟨⟨u s, rfl, .refl⟩, fun t'' hne => ?_⟩
      rw [Function.update_of_ne hne]
      exact hothers t'' hne
    · rw [Function.update_of_ne htt, hothers t' htt] at hk'
      cases hk'
  · refine ⟨_, rfl, ?_⟩
    rintro s' ⟨_, rfl, he⟩
    exact (hQ (f s)).env (h s (hk s hs) ha) he

theorem alone_read {f : σ → α} (hQ : ∀ a, Lasts K (Q a)) (h : ∀ s, P s → Q (f s) s) :
    Alone K allow n (Code.read f : Code σ τ π ρ α) P Q :=
  alone_act hQ fun s hs _ => h s hs

theorem alone_modify {f : σ → σ} {Q : Unit → σ → Prop} (hQ : Lasts K (Q ()))
    (h : ∀ s, P s → Q () (f s)) : Alone K allow n (Code.modify f : Code σ τ π ρ Unit) P Q :=
  alone_act (fun _ => hQ) fun s hs _ => h s hs

theorem alone_atom {x : τ} {f : σ → σ} {Q : Unit → σ → Prop} (hQ : Lasts K (Q ()))
    (h : ∀ s, P s → allow x s → Q () (f s)) :
    Alone K allow n (Code.atom x f : Code σ τ π ρ Unit) P Q :=
  alone_act (fun _ => hQ) fun s hs ha => h s hs (ha x rfl)

/-- A sleep takes nothing away. -/
theorem alone_sleep : Alone K allow n (Code.sleep : Code σ τ π ρ Unit) P fun _ => P :=
  holds_sleep _

theorem alone_ask {Q : Nat → σ → Prop} (hQ : ∀ v s, P s → Q v s) :
    Alone K allow n (Code.ask : Code σ τ π ρ Nat) P Q := by
  refine holds_ask (stable_ghost _) ?_
  intro v G t s _ ⟨k, hg, hk⟩
  exact ⟨k, hg, fun s' hs => hQ v s' (hk s' hs)⟩

/-- The call of a procedure is its body. -/
theorem alone_body {p : π} {Q : ρ → σ → Prop} (h : Alone K allow n (K.body p) P Q) :
    Alone K allow n (Code.call p) P Q :=
  holds_body (stable_ghost _) h

/-- Specifications of some procedures at once, each assuming the calls. -/
theorem alone_calls {ι : Type} {p : ι → π} {Pre : ι → σ → Prop} {Post : ι → ρ → σ → Prop}
    (hbody : ∀ n, (∀ i, Alone K allow n (Code.call (p i)) (Pre i) (Post i)) →
      ∀ i, Alone K allow n (K.body (p i)) (Pre i) (Post i)) (n : Nat) (i : ι) :
    Alone K allow n (Code.call (p i)) (Pre i) (Post i) :=
  holds_some (fun _ => stable_ghost _) hbody n i

/-- A procedure that calls no other but itself. -/
theorem alone_loop {p : π} {Q : ρ → σ → Prop}
    (hbody : ∀ n, Alone K allow n (Code.call p) P Q → Alone K allow n (K.body p) P Q) (n : Nat) :
    Alone K allow n (Code.call p) P Q := by
  have hunit : ∀ m (_ : Unit), Alone K allow m (Code.call p) P Q :=
    alone_calls fun m ih _ => hbody m (ih ())
  exact hunit n ()

/-- **What a triple says of code that returns.** -/
theorem Alone.returns {x : Code σ τ π ρ α} (hx : ∀ n, Alone K allow n x P Q) (hP : Lasts K P)
    {s s' : σ} (hs : P s) {l : List (τ × σ)} (hl : ∀ e ∈ l, allow e.1 e.2) {a : α}
    (h : K.Returns x s l a s') : Q a s' := by
  let G : Nat → Option (Known K) :=
    Function.update (fun _ => none) 0 (some (Known.since K fun s₁ => s₁ = s))
  have hG : G 0 = some (Known.since K fun s₁ => s₁ = s) := Function.update_self ..
  have hnone : ∀ t, t ≠ 0 → G t = none := fun t ht => Function.update_of_ne ht ..
  have hi : (solo K allow).inv G s := by
    intro t k hk
    by_cases ht : t = 0
    · subst ht
      rw [hG, Option.some.injEq] at hk
      subst hk
      exact ⟨⟨s, rfl, .refl⟩, hnone⟩
    · rw [hnone t ht] at hk
      cases hk
  have hknows : Knows P (G 0) := by
    refine ⟨_, hG, ?_⟩
    rintro s₁ ⟨_, rfl, he⟩
    exact hP.env hs he
  obtain ⟨⟨G', hi', k, hk, hQ⟩, -⟩ := Holds.returns (C := solo K allow) hx (fun _ h => h)
    (stable_ghost _) hi hknows hl h
  exact hQ s' (hi' 0 k hk).1

end Rules

end Kernel

end Linux011.Lib
