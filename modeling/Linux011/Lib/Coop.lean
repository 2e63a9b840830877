import Mathlib.Logic.Relation
import Mathlib.Logic.Function.Basic
import Mathlib.Tactic.Common

/-!
# Cooperative tasks

Programs of a kernel that is not preempted: a task runs until it sleeps, then
any task may run. Between any two actions of the running task, and while no
task runs, interrupts may change the shared state.

A program (`Prog`) is a sequence of atomic actions on the shared state `σ`,
sleeps, questions to the part of the world that is not modelled, and calls of
named procedures `π`; loops and recursion are calls. Actions that matter to
the specification carry a tag `τ`. `Code` is the monad programs are written
in.

What a task knows across a sleep is kept in a ghost value of its own: the
invariant relates the ghosts of all tasks and the shared state, and only the
task itself changes its ghost. A ghost may hold something that its task has to
give back before it sleeps (`asleep`); so while a task runs, no other has it. `Safe t n p G s` says that task `t`, running `p`
from `s`, keeps the invariant and makes only actions the specification allows,
for `n` steps, whatever the interrupts do and whatever it finds after a sleep.
`Holds` is the triple for pieces of code.

Main results:

* `holds_pure`, `holds_bind`, `holds_read`, `holds_modify`, `holds_atom`,
  `holds_sleep`, `holds_ask`, `holds_panic`, `holds_ite` — the rules;
* `holds_call` — procedures are specified together, each assuming the calls;
* `exists_reach` — what a script of moves is seen to lead to is reachable;
* `reach_idle`, `Good.check` — if every program a task may start is safe, every
  reachable configuration keeps the invariant and every action made is allowed.
-/

namespace Linux011.Lib

/-- Programs over shared state `σ`, tags `τ`, procedures `π` with results `ρ`.
An action updates the state and goes on according to the state it found. -/
inductive Prog (σ τ π ρ : Type)
  | done
  | panic
  | act (tag : Option τ) (update : σ → σ) (next : σ → Prog σ τ π ρ)
  | sleep (next : Prog σ τ π ρ)
  | ask (next : Nat → Prog σ τ π ρ)
  | call (p : π) (next : ρ → Prog σ τ π ρ)

/-- Code with result `α`: a program, given what to do with the result. -/
def Code (σ τ π ρ α : Type) : Type := (α → Prog σ τ π ρ) → Prog σ τ π ρ

variable {σ τ π ρ α β : Type}

instance : Monad (Code σ τ π ρ) where
  pure a := fun k => k a
  bind x f := fun k => x fun a => f a k

namespace Code

/-- Read the shared state. -/
def read (f : σ → α) : Code σ τ π ρ α := fun k => .act none id fun s => k (f s)

/-- Change the shared state. -/
def modify (f : σ → σ) : Code σ τ π ρ Unit := fun k => .act none f fun _ => k ()

/-- A tagged change. -/
def atom (t : τ) (f : σ → σ) : Code σ τ π ρ Unit := fun k => .act (some t) f fun _ => k ()

/-- Let other tasks run. -/
def sleep : Code σ τ π ρ Unit := fun k => .sleep (k ())

/-- Ask the rest of the world. -/
def ask : Code σ τ π ρ Nat := fun k => .ask k

/-- Call a procedure. -/
def call (p : π) : Code σ τ π ρ ρ := fun k => .call p k

/-- Stop the machine. -/
def panic : Code σ τ π ρ α := fun _ => .panic

/-- Code run under a condition. -/
def when (b : Bool) (x : Code σ τ π ρ Unit) : Code σ τ π ρ Unit := if b then x else pure ()

/-- A whole program. -/
def toProg (x : Code σ τ π ρ α) : Prog σ τ π ρ := x fun _ => .done

end Code

/-- A kernel: what the procedures do, what an interrupt may do, and what each
task may start. -/
structure Kernel (σ τ π ρ : Type) where
  body : π → Code σ τ π ρ ρ
  env  : σ → σ → Prop
  ops  : Nat → Prog σ τ π ρ → Prop

/-- The shared state, the program each task has before it, and the task that
is running, if any. -/
structure Config (σ τ π ρ : Type) where
  shared  : σ
  tasks   : Nat → Prog σ τ π ρ
  running : Option Nat

/-- No task has begun. -/
def Config.idle (s : σ) : Config σ τ π ρ := ⟨s, fun _ => .done, none⟩

namespace Kernel

/-- One step of the machine. `allow` restricts the tagged actions of the runs
considered. -/
inductive Step (K : Kernel σ τ π ρ) (allow : τ → σ → Prop) :
    Config σ τ π ρ → Config σ τ π ρ → Prop
  | act {c : Config σ τ π ρ} {t : Nat} {tag : Option τ} {u : σ → σ} {n : σ → Prog σ τ π ρ}
      (hr : c.running = some t) (ht : c.tasks t = .act tag u n)
      (ha : ∀ x, tag = some x → allow x c.shared) :
      Step K allow c
        { c with shared := u c.shared, tasks := Function.update c.tasks t (n c.shared) }
  | ask {c : Config σ τ π ρ} {t : Nat} {n : Nat → Prog σ τ π ρ} (v : Nat)
      (hr : c.running = some t) (ht : c.tasks t = .ask n) :
      Step K allow c { c with tasks := Function.update c.tasks t (n v) }
  | call {c : Config σ τ π ρ} {t : Nat} {p : π} {n : ρ → Prog σ τ π ρ}
      (hr : c.running = some t) (ht : c.tasks t = .call p n) :
      Step K allow c { c with tasks := Function.update c.tasks t (K.body p n) }
  | sleep {c : Config σ τ π ρ} {t : Nat} {n : Prog σ τ π ρ}
      (hr : c.running = some t) (ht : c.tasks t = .sleep n) :
      Step K allow c { c with tasks := Function.update c.tasks t n, running := none }
  | finish {c : Config σ τ π ρ} {t : Nat} (hr : c.running = some t) (ht : c.tasks t = .done) :
      Step K allow c { c with running := none }
  | switch {c : Config σ τ π ρ} (t : Nat) (hr : c.running = none) :
      Step K allow c { c with running := some t }
  | start {c : Config σ τ π ρ} (t : Nat) (p : Prog σ τ π ρ) (hr : c.running = none)
      (ht : c.tasks t = .done) (hp : K.ops t p) :
      Step K allow c { c with tasks := Function.update c.tasks t p }
  | interrupt {c : Config σ τ π ρ} (s : σ) (he : K.env c.shared s) :
      Step K allow c { c with shared := s }

/-- The configurations reached from `c`. -/
abbrev Reach (K : Kernel σ τ π ρ) (allow : τ → σ → Prop) :
    Config σ τ π ρ → Config σ τ π ρ → Prop := Relation.ReflTransGen (K.Step allow)

/-- Any number of interrupts. -/
abbrev Env (K : Kernel σ τ π ρ) : σ → σ → Prop := Relation.ReflTransGen K.env

/-! ## Scripted runs -/

/-- The action a program is about to make, if it is a tagged one. -/
def tagOf : Prog σ τ π ρ → Option τ
  | .act tag _ _ => tag
  | _ => none

/-- `n` steps of a task that does not have to wait, as far as `ok` lets it. -/
def drive (K : Kernel σ τ π ρ) (ok : τ → σ → Bool) :
    Nat → Prog σ τ π ρ → σ → Prog σ τ π ρ × σ
  | 0, p, s => (p, s)
  | n + 1, .act tag u next, s =>
    if tag.all (ok · s) then drive K ok n (next s) (u s) else (.act tag u next, s)
  | n + 1, .call p next, s => drive K ok n (K.body p next) s
  | _ + 1, .done, s => (.done, s)
  | _ + 1, .panic, s => (.panic, s)
  | _ + 1, .sleep next, s => (.sleep next, s)
  | _ + 1, .ask next, s => (.ask next, s)

theorem reach_drive {K : Kernel σ τ π ρ} {ok : τ → σ → Bool} {allow : τ → σ → Prop}
    (hok : ∀ x s, ok x s = true → allow x s) (n : Nat) {p : Prog σ τ π ρ} {s : σ} {t : Nat}
    {tasks : Nat → Prog σ τ π ρ} (ht : tasks t = p) :
    K.Reach allow ⟨s, tasks, some t⟩
      ⟨(K.drive ok n p s).2, Function.update tasks t (K.drive ok n p s).1, some t⟩ := by
  have hrefl : K.Reach allow ⟨s, tasks, some t⟩ ⟨s, Function.update tasks t p, some t⟩ := by
    rw [← ht, Function.update_eq_self]
  induction n generalizing p s tasks with
  | zero => exact hrefl
  | succ n ih =>
    cases p with
    | act tag u next =>
      rw [drive]
      split
      · next htag =>
        have hself : Function.update tasks t (next s) t = next s := Function.update_self ..
        have h := ih (s := u s) hself (by rw [Function.update_idem])
        rw [Function.update_idem] at h
        refine .head (.act rfl ht ?_) h
        intro x hx
        rw [hx] at htag
        exact hok x s htag
      · exact hrefl
    | call q next =>
      have hself : Function.update tasks t (K.body q next) t = K.body q next :=
        Function.update_self ..
      have h := ih (s := s) hself (by rw [Function.update_idem])
      rw [Function.update_idem] at h
      exact .head (.call rfl ht) h
    | done => exact hrefl
    | panic => exact hrefl
    | sleep next => exact hrefl
    | ask next => exact hrefl

/-- A move of a script: the running task makes up to `n` steps, goes to sleep or
has its question answered; a task is chosen, or starts a program; an interrupt
comes. -/
inductive Move (σ τ π ρ ι : Type)
  | run (n : Nat)
  | rest
  | answer (v : Nat)
  | wake (t : Nat)
  | start (t : Nat) (p : Prog σ τ π ρ)
  | irq (i : ι)

/-- One move, if it can be made. `irq` says what each interrupt does. -/
def move {ι : Type} (K : Kernel σ τ π ρ) (ok : τ → σ → Bool) (irq : ι → σ → Option σ)
    (c : Config σ τ π ρ) : Move σ τ π ρ ι → Option (Config σ τ π ρ)
  | .run n => c.running.map fun t =>
      ⟨(K.drive ok n (c.tasks t) c.shared).2,
        Function.update c.tasks t (K.drive ok n (c.tasks t) c.shared).1, c.running⟩
  | .rest => c.running.bind fun t => match c.tasks t with
    | .sleep next => some ⟨c.shared, Function.update c.tasks t next, none⟩
    | .done => some ⟨c.shared, c.tasks, none⟩
    | _ => none
  | .answer v => c.running.bind fun t => match c.tasks t with
    | .ask next => some ⟨c.shared, Function.update c.tasks t (next v), c.running⟩
    | _ => none
  | .wake t => if c.running.isNone then some ⟨c.shared, c.tasks, some t⟩ else none
  | .start t p => match c.running, c.tasks t with
    | none, .done => some ⟨c.shared, Function.update c.tasks t p, none⟩
    | _, _ => none
  | .irq i => (irq i c.shared).map fun s => ⟨s, c.tasks, c.running⟩

/-- A script. -/
def play {ι : Type} (K : Kernel σ τ π ρ) (ok : τ → σ → Bool) (irq : ι → σ → Option σ) :
    List (Move σ τ π ρ ι) → Config σ τ π ρ → Option (Config σ τ π ρ)
  | [], c => some c
  | m :: ms, c => (K.move ok irq c m).bind (play K ok irq ms)

section Scripts

variable {ι : Type} {K : Kernel σ τ π ρ} {ok : τ → σ → Bool} {allow : τ → σ → Prop}
  {irq : ι → σ → Option σ}

theorem reach_move (hok : ∀ x s, ok x s = true → allow x s)
    (hirq : ∀ i s s', irq i s = some s' → K.env s s') {c c' : Config σ τ π ρ}
    {m : Move σ τ π ρ ι} (hops : ∀ t p, m = .start t p → K.ops t p)
    (h : K.move ok irq c m = some c') : K.Reach allow c c' := by
  obtain ⟨s, tasks, running⟩ := c
  cases m with
  | run n =>
    cases running with
    | none => cases h
    | some t =>
      cases h
      exact reach_drive hok n rfl
  | rest =>
    cases running with
    | none => cases h
    | some t =>
      simp only [move, Option.bind_some] at h
      split at h
      · next ht =>
        cases h
        exact .single (.sleep rfl ht)
      · next ht =>
        cases h
        exact .single (.finish rfl ht)
      · cases h
  | answer v =>
    cases running with
    | none => cases h
    | some t =>
      simp only [move, Option.bind_some] at h
      split at h
      · next ht =>
        cases h
        exact .single (.ask v rfl ht)
      · cases h
  | wake t =>
    cases running with
    | none =>
      cases h
      exact .single (.switch t rfl)
    | some t => cases h
  | start t p =>
    simp only [move] at h
    split at h
    · next ht =>
      cases h
      exact .single (.start t p rfl ht (hops t p rfl))
    · cases h
  | irq i =>
    obtain ⟨s', hs, rfl⟩ := Option.map_eq_some_iff.mp h
    exact .single (.interrupt s' (hirq i _ _ hs))

/-- **What a script leads to is reachable.** -/
theorem reach_play (hok : ∀ x s, ok x s = true → allow x s)
    (hirq : ∀ i s s', irq i s = some s' → K.env s s') {c c' : Config σ τ π ρ}
    {ms : List (Move σ τ π ρ ι)} (hops : ∀ t p, .start t p ∈ ms → K.ops t p)
    (h : K.play ok irq ms c = some c') : K.Reach allow c c' := by
  induction ms generalizing c with
  | nil =>
    cases h
    exact .refl
  | cons m ms ih =>
    obtain ⟨c₁, h₁, h₂⟩ := Option.bind_eq_some_iff.mp h
    have hm := reach_move hok hirq
      (fun t p hp => hops t p (by rw [hp]; exact List.mem_cons_self ..)) h₁
    exact hm.trans (ih (fun t p hp => hops t p (List.mem_cons_of_mem _ hp)) h₂)

/-- The programs a script starts. -/
def programs (ms : List (Move σ τ π ρ ι)) : List (Nat × Prog σ τ π ρ) :=
  ms.filterMap fun
    | .start t p => some (t, p)
    | _ => none

/-- So is what a script is seen to lead to. -/
theorem exists_reach (hok : ∀ x s, ok x s = true → allow x s)
    (hirq : ∀ i s s', irq i s = some s' → K.env s s') {c : Config σ τ π ρ}
    {ms : List (Move σ τ π ρ ι)} (hops : ∀ q ∈ programs ms, K.ops q.1 q.2) {β : Type}
    {f : Config σ τ π ρ → β} {b : β} (h : (K.play ok irq ms c).map f = some b) :
    ∃ c', K.Reach allow c c' ∧ f c' = b := by
  obtain ⟨c', hc, hf⟩ := Option.map_eq_some_iff.mp h
  exact ⟨c', reach_play hok hirq
    (fun t p hp => hops (t, p) (List.mem_filterMap.mpr ⟨_, hp, rfl⟩)) hc, hf⟩

/-- A task goes on to its next sleep: it wakes, has its questions answered, and runs
on. -/
def leg (t : Nat) (answers : List Nat) : List (Move σ τ π ρ ι) :=
  .wake t :: .run 100 :: answers.flatMap (fun v => [.answer v, .run 100]) ++ [.rest]

end Scripts

/-- What the tasks have to keep: an invariant of the ghosts and the shared
state that interrupts do not break, and what each action may do. `rest` is what
the ghost of a task without a program looks like, `asleep` that of a task that
does not run. -/
structure Contract (K : Kernel σ τ π ρ) (γ : Type) where
  inv     : (Nat → γ) → σ → Prop
  allow   : τ → σ → Prop
  check   : Option τ → σ → σ → Prop
  rest    : γ → Prop
  inv_env : ∀ G s s', inv G s → K.env s s' → inv G s'
  reads   : ∀ G s, inv G s → check none s s
  asleep  : γ → Prop := fun _ => True
  rest_asleep : ∀ g, rest g → asleep g := by exact fun _ _ => trivial

variable {γ : Type} {K : Kernel σ τ π ρ}

theorem Contract.env (C : Contract K γ) {G : Nat → γ} {s s' : σ} (h : C.inv G s)
    (he : K.Env s s') : C.inv G s' := by
  induction he with
  | refl => exact h
  | tail _ hs ih => exact C.inv_env _ _ _ ih hs

/-- All tasks but `t` are asleep. -/
def Contract.Others (C : Contract K γ) (t : Nat) (G : Nat → γ) : Prop :=
  ∀ t', t' ≠ t → C.asleep (G t')

theorem Contract.Others.update {C : Contract K γ} {t : Nat} {G : Nat → γ} (h : C.Others t G) (g : γ) :
    C.Others t (Function.update G t g) := by
  intro t' ht'
  rw [Function.update_of_ne ht']
  exact h t' ht'

/-- Task `t` with `p` before it keeps the contract for `n` steps from `s`. -/
def Safe (C : Contract K γ) (t : Nat) : Nat → Prog σ τ π ρ → (Nat → γ) → σ → Prop
  | 0, _, _, _ => True
  | n + 1, p, G, s => ∀ s', K.Env s s' → C.inv G s' ∧
    match p with
    | .done => C.rest (G t)
    | .panic => True
    | .act tag u next => (∀ x, tag = some x → C.allow x s') →
        C.check tag s' (u s') ∧ ∃ g, Safe C t n (next s') (Function.update G t g) (u s')
    | .sleep next => C.asleep (G t) ∧
        ∀ G' s'', G' t = G t → C.inv G' s'' → C.Others t G' → Safe C t n next G' s''
    | .ask next => ∀ v, Safe C t n (next v) G s'
    | .call p next => Safe C t n (K.body p next) G s'

variable {C : Contract K γ} {t : Nat}

theorem safe_env {n : Nat} {p : Prog σ τ π ρ} {G : Nat → γ} {s s' : σ} (h : Safe C t n p G s)
    (he : K.Env s s') : Safe C t n p G s' := by
  cases n with
  | zero => trivial
  | succ n =>
    intro s'' he'
    exact h s'' (he.trans he')

theorem safe_pred {n : Nat} {p : Prog σ τ π ρ} {G : Nat → γ} {s : σ}
    (h : Safe C t (n + 1) p G s) : Safe C t n p G s := by
  induction n generalizing p G s with
  | zero => trivial
  | succ n ih =>
    intro s' he
    obtain ⟨hi, hp⟩ := h s' he
    refine ⟨hi, ?_⟩
    cases p with
    | done => exact hp
    | panic => trivial
    | act tag u next =>
      intro ha
      obtain ⟨hc, g, hn⟩ := hp ha
      exact ⟨hc, g, ih hn⟩
    | sleep next => exact ⟨hp.1, fun G' s'' hg hs ho => ih (hp.2 G' s'' hg hs ho)⟩
    | ask next => exact fun v => ih (hp v)
    | call q next => exact ih hp

/-! ## Triples -/

/-- An assertion on a task's ghost and the state that interrupts do not
break. -/
def Stable (C : Contract K γ) (P : γ → σ → Prop) : Prop :=
  ∀ G (t : Nat) s s', C.inv G s → P (G t) s → K.env s s' → P (G t) s'

theorem Stable.env {P : γ → σ → Prop} (hP : Stable C P) {G : Nat → γ} {s s' : σ}
    (hi : C.inv G s) (h : P (G t) s) (he : K.Env s s') : P (G t) s' := by
  induction he with
  | refl => exact h
  | tail hs hss ih => exact hP G t _ _ (C.env hi hs) ih hss

/-- An assertion on the ghost alone. -/
theorem stable_ghost (P : γ → Prop) : Stable C (fun g _ => P g) := fun _ _ _ _ _ h _ => h

theorem Stable.and {P P' : γ → σ → Prop} (hP : Stable C P) (hP' : Stable C P') :
    Stable C (fun g s => P g s ∧ P' g s) :=
  fun G t s s' hi h he => ⟨hP G t s s' hi h.1 he, hP' G t s s' hi h.2 he⟩

/-- `x` from a state with `P` is safe, up to `n` steps, if what follows is safe
from `Q`. The invariant holds at both ends, and the other tasks are asleep. -/
def Holds (C : Contract K γ) (n : Nat) (x : Code σ τ π ρ α) (P : γ → σ → Prop)
    (Q : α → γ → σ → Prop) : Prop :=
  ∀ m, m ≤ n → ∀ k t G s, C.inv G s → C.Others t G → P (G t) s →
    (∀ a G' s', C.inv G' s' → C.Others t G' → Q a (G' t) s' → Safe C t m (k a) G' s') →
    Safe C t m (x k) G s

variable {n : Nat} {P P' : γ → σ → Prop} {Q Q' : α → γ → σ → Prop}

theorem Holds.conseq {x : Code σ τ π ρ α} (h : Holds C n x P Q)
    (hP : ∀ g s, P' g s → P g s) (hQ : ∀ a g s, Q a g s → Q' a g s) : Holds C n x P' Q' := by
  intro m hm k t G s hi ho hs hk
  exact h m hm k t G s hi ho (hP _ s hs) fun a G' s' hi' ho' ha => hk a G' s' hi' ho' (hQ a _ s' ha)

theorem Holds.pre {x : Code σ τ π ρ α} (h : Holds C n x P Q) (hP : ∀ g s, P' g s → P g s) :
    Holds C n x P' Q :=
  h.conseq hP fun _ _ _ ha => ha

/-- A weaker postcondition, for states that keep the invariant. -/
theorem holds_post {x : Code σ τ π ρ α} (h : Holds C n x P Q)
    (hQ : ∀ a G (t : Nat) s, C.inv G s → Q a (G t) s → Q' a (G t) s) : Holds C n x P Q' := by
  intro m hm k t G s hi ho hs hk
  exact h m hm k t G s hi ho hs fun a G' s' hi' ho' ha => hk a G' s' hi' ho' (hQ a G' t s' hi' ha)

/-- A precondition of two cases. -/
theorem holds_or {x : Code σ τ π ρ α} (h : Holds C n x P Q) (h' : Holds C n x P' Q) :
    Holds C n x (fun g s => P g s ∨ P' g s) Q := by
  intro m hm k t G s hi ho hs hk
  rcases hs with hs | hs
  · exact h m hm k t G s hi ho hs hk
  · exact h' m hm k t G s hi ho hs hk

/-- A precondition that does not speak of ghost and state. -/
theorem holds_fact {x : Code σ τ π ρ α} {p : Prop} (h : p → Holds C n x P Q)
    (hp : ∀ g s, P g s → p) : Holds C n x P Q := by
  intro m hm k t G s hi ho hs hk
  exact h (hp _ _ hs) m hm k t G s hi ho hs hk

theorem holds_pure {a : α} (h : ∀ G (t : Nat) s, C.inv G s → P (G t) s → Q a (G t) s) :
    Holds C n (pure a : Code σ τ π ρ α) P Q := by
  intro m _ k t G s hi ho hs hk
  exact hk a G s hi ho (h G t s hi hs)

theorem holds_bind {R : β → γ → σ → Prop} {x : Code σ τ π ρ β} {f : β → Code σ τ π ρ α}
    (hx : Holds C n x P R) (hf : ∀ b, Holds C n (f b) (R b) Q) :
    Holds C n (x >>= f) P Q := by
  intro m hm k t G s hi ho hs hk
  exact hx m hm _ t G s hi ho hs fun b G' s' hi' ho' hb => hf b m hm k t G' s' hi' ho' hb hk

theorem holds_ite {c : Prop} [Decidable c] {x y : Code σ τ π ρ α}
    (hx : c → Holds C n x P Q) (hy : ¬ c → Holds C n y P Q) :
    Holds C n (if c then x else y) P Q := by
  split
  · next h => exact hx h
  · next h => exact hy h

theorem holds_when {b : Bool} {x : Code σ τ π ρ Unit} {Q : Unit → γ → σ → Prop}
    (hx : b = true → Holds C n x P Q)
    (hy : ∀ G (t : Nat) s, C.inv G s → P (G t) s → b = false → Q () (G t) s) :
    Holds C n (Code.when b x) P Q := by
  refine holds_ite hx ?_
  intro hb
  exact holds_pure fun G t s hi hs => hy G t s hi hs (by simpa using hb)

theorem holds_panic : Holds C n (Code.panic : Code σ τ π ρ α) P Q := by
  intro m _ k t G s hi _ _ _
  cases m with
  | zero => trivial
  | succ m =>
    intro s' he
    exact ⟨C.env hi he, trivial⟩

/-- Any action. The ghost may change with the state. -/
theorem holds_act {tag : Option τ} {u : σ → σ} {f : σ → α} (hst : Stable C P)
    (h : ∀ G (t : Nat) s, C.inv G s → C.Others t G → P (G t) s →
      (∀ x, tag = some x → C.allow x s) → C.check tag s (u s) ∧
        ∃ g, C.inv (Function.update G t g) (u s) ∧ Q (f s) g (u s)) :
    Holds C n (fun k => .act tag u fun s => k (f s) : Code σ τ π ρ α) P Q := by
  intro m _ k t G s hi ho hs hk
  cases m with
  | zero => trivial
  | succ m =>
    intro s' he
    have hi' := C.env hi he
    refine ⟨hi', fun ha => ?_⟩
    obtain ⟨hc, g, hg, hq⟩ := h G t s' hi' ho (hst.env hi hs he) ha
    refine ⟨hc, g, safe_pred (hk (f s') (Function.update G t g) (u s') hg (ho.update g) ?_)⟩
    rw [Function.update_self]
    exact hq

/-- A task that reads may use that the others are asleep. -/
theorem holds_read_others {f : σ → α} (hst : Stable C P)
    (hQ : ∀ G (t : Nat) s, C.inv G s → C.Others t G → P (G t) s → Q (f s) (G t) s) :
    Holds C n (Code.read f : Code σ τ π ρ α) P Q := by
  refine holds_act hst ?_
  intro G t s hi ho hs _
  refine ⟨C.reads G s hi, G t, ?_, hQ G t s hi ho hs⟩
  rw [Function.update_eq_self]
  exact hi

theorem holds_read {f : σ → α} (hst : Stable C P)
    (hQ : ∀ G (t : Nat) s, C.inv G s → P (G t) s → Q (f s) (G t) s) :
    Holds C n (Code.read f : Code σ τ π ρ α) P Q :=
  holds_read_others hst fun G t s hi _ hs => hQ G t s hi hs

theorem holds_modify {f : σ → σ} {Q : Unit → γ → σ → Prop} (hst : Stable C P)
    (h : ∀ G (t : Nat) s, C.inv G s → P (G t) s → C.check none s (f s) ∧
      ∃ g, C.inv (Function.update G t g) (f s) ∧ Q () g (f s)) :
    Holds C n (Code.modify f : Code σ τ π ρ Unit) P Q :=
  holds_act hst fun G t s hi _ hs _ => h G t s hi hs

theorem holds_atom {x : τ} {f : σ → σ} {Q : Unit → γ → σ → Prop} (hst : Stable C P)
    (h : ∀ G (t : Nat) s, C.inv G s → P (G t) s → C.allow x s → C.check (some x) s (f s) ∧
      ∃ g, C.inv (Function.update G t g) (f s) ∧ Q () g (f s)) :
    Holds C n (Code.atom x f : Code σ τ π ρ Unit) P Q :=
  holds_act hst fun G t s hi _ hs ha => h G t s hi hs (ha x rfl)

/-- After a sleep a task knows the invariant and its own ghost. -/
theorem holds_sleep (p : γ → Prop)
    (hp : ∀ g, p g → C.asleep g := by exact fun _ _ => trivial) :
    Holds C n (Code.sleep : Code σ τ π ρ Unit) (fun g _ => p g) (fun _ g _ => p g) := by
  intro m _ k t G s hi _ hs hk
  cases m with
  | zero => trivial
  | succ m =>
    intro s' he
    refine ⟨C.env hi he, hp _ hs, fun G' s'' hg hs'' ho => safe_pred (hk _ G' s'' hs'' ho ?_)⟩
    rw [hg]
    exact hs

theorem holds_ask {Q : Nat → γ → σ → Prop} (hst : Stable C P)
    (hQ : ∀ v G (t : Nat) s, C.inv G s → P (G t) s → Q v (G t) s) :
    Holds C n (Code.ask : Code σ τ π ρ Nat) P Q := by
  intro m _ k t G s hi ho hs hk
  cases m with
  | zero => trivial
  | succ m =>
    intro s' he
    have hi' := C.env hi he
    exact ⟨hi', fun v => safe_pred (hk v G s' hi' ho (hQ v G t s' hi' (hst.env hi hs he)))⟩

/-- Specifications of all procedures at once: each body may use those of the
calls it makes. -/
theorem holds_call {ι : Type} {Pre : π → ι → γ → σ → Prop} {Post : π → ι → ρ → γ → σ → Prop}
    (hst : ∀ p i, Stable C (Pre p i))
    (hbody : ∀ n, (∀ p i, Holds C n (Code.call p) (Pre p i) (Post p i)) →
      ∀ p i, Holds C n (K.body p) (Pre p i) (Post p i)) (n : Nat) (p : π) (i : ι) :
    Holds C n (Code.call p) (Pre p i) (Post p i) := by
  induction n generalizing p i with
  | zero =>
    intro m hm k t G s _ _ _ _
    obtain rfl : m = 0 := by omega
    trivial
  | succ n ih =>
    intro m hm k t G s hi ho hs hk
    cases m with
    | zero => trivial
    | succ m =>
      intro s' he
      have hi' := C.env hi he
      refine ⟨hi', ?_⟩
      exact hbody n ih p i m (by omega) k t G s' hi' ho ((hst p i).env hi hs he)
        fun a G' s'' hi'' ho' ha => safe_pred (hk a G' s'' hi'' ho' ha)

/-- Procedures that all keep one assertion. -/
theorem holds_calls {R : γ → σ → Prop} (hst : Stable C R)
    (hbody : ∀ n, (∀ p, Holds C n (Code.call p) R (fun _ => R)) →
      ∀ p, Holds C n (K.body p) R (fun _ => R)) (n : Nat) (p : π) :
    Holds C n (Code.call p) R (fun _ => R) :=
  @holds_call σ τ π ρ γ K C Unit (fun _ _ => R) (fun _ _ _ => R) (fun _ _ => hst)
    (fun m h q _ => hbody m (fun p => h p ()) q) n p ()

/-- A piece of code that ends a program. -/
theorem Holds.safe {x : Code σ τ π ρ α} (h : ∀ n, Holds C n x P Q)
    (hrest : ∀ a G (t : Nat) s, C.inv G s → Q a (G t) s → C.rest (G t)) {G : Nat → γ} {s : σ}
    (hi : C.inv G s) (ho : C.Others t G) (hs : P (G t) s) (n : Nat) : Safe C t n x.toProg G s := by
  refine h n n (Nat.le_refl n) _ t G s hi ho hs ?_
  intro a G' s' hi' _ ha
  cases n with
  | zero => trivial
  | succ n =>
    intro s'' he
    exact ⟨C.env hi' he, hrest a G' t s' hi' ha⟩

/-! ## Whole runs -/

/-- The contract is kept so far and will be for `n` steps. -/
structure Good (C : Contract K γ) (n : Nat) (G : Nat → γ) (c : Config σ τ π ρ) : Prop where
  inv     : C.inv G c.shared
  asleep  : ∀ t, c.running ≠ some t → C.asleep (G t) ∧
    ∀ G' s, G' t = G t → C.inv G' s → C.Others t G' → Safe C t n (c.tasks t) G' s
  running : ∀ t, c.running = some t → Safe C t n (c.tasks t) G c.shared

/-- The running task moved to program `p` and ghost `g` in state `s`. -/
theorem Good.move {c : Config σ τ π ρ} {G : Nat → γ} (hc : Good C (n + 1) G c)
    (hr : c.running = some t) {p : Prog σ τ π ρ} {g : γ} {s : σ}
    (hi : C.inv (Function.update G t g) s) (hp : Safe C t n p (Function.update G t g) s) :
    Good C n (Function.update G t g)
      { c with shared := s, tasks := Function.update c.tasks t p } := by
  refine ⟨hi, ?_, ?_⟩
  · intro t' ht'
    have hne : t' ≠ t := by
      rintro rfl
      exact ht' hr
    obtain ⟨ha, hsafe⟩ := hc.asleep t' ht'
    rw [Function.update_of_ne hne]
    refine ⟨ha, fun G' s' hg hs' ho => ?_⟩
    show Safe C t' n (Function.update c.tasks t p t') G' s'
    rw [Function.update_of_ne hne]
    exact safe_pred (hsafe G' s' hg hs' ho)
  · intro t' ht'
    have heq : t' = t := by
      have h : some t' = some t := ht'.symm.trans hr
      exact Option.some.inj h
    subst heq
    show Safe C t' n (Function.update c.tasks t' p t') _ s
    rw [Function.update_self]
    exact hp

/-- The running task stops; its program is now `p`, which is safe from any
state that agrees with its ghost. -/
theorem Good.stop {c : Config σ τ π ρ} {G : Nat → γ} (hc : Good C (n + 1) G c)
    (hr : c.running = some t) {p : Prog σ τ π ρ} (ha : C.asleep (G t))
    (hp : ∀ G' s, G' t = G t → C.inv G' s → C.Others t G' → Safe C t n p G' s) :
    Good C n G { c with tasks := Function.update c.tasks t p, running := none } := by
  refine ⟨hc.inv, ?_, fun t' ht' => by cases ht'⟩
  intro t' _
  by_cases htt : t' = t
  · subst htt
    refine ⟨ha, fun G' s' hg hs' ho => ?_⟩
    show Safe C t' n (Function.update c.tasks t' p t') G' s'
    rw [Function.update_self]
    exact hp G' s' hg hs' ho
  · obtain ⟨ha', hsafe⟩ := hc.asleep t' (by rw [hr]; simpa using Ne.symm htt)
    refine ⟨ha', fun G' s' hg hs' ho => ?_⟩
    show Safe C t' n (Function.update c.tasks t p t') G' s'
    rw [Function.update_of_ne htt]
    exact safe_pred (hsafe G' s' hg hs' ho)

/-- While no task runs, one without a program is at rest. -/
theorem Good.rest {c : Config σ τ π ρ} {G : Nat → γ} (hc : Good C (n + 1) G c)
    (hr : c.running = none) (ht : c.tasks t = .done) : C.rest (G t) := by
  have hnone : ∀ t', c.running ≠ some t' := by
    intro t' h
    rw [hr] at h
    cases h
  have hdone := (hc.asleep t (hnone t)).2 G c.shared rfl hc.inv
    fun t' _ => (hc.asleep t' (hnone t')).1
  rw [ht] at hdone
  exact (hdone c.shared .refl).2

/-- What a contract asks of the programs a task may start: from rest, some
ghost makes them safe. -/
def Starts (C : Contract K γ) : Prop :=
  ∀ t p, K.ops t p → ∀ G s, C.inv G s → C.rest (G t) → ∃ g, C.asleep g ∧
    C.inv (Function.update G t g) s ∧
    ∀ n G' s', G' t = g → C.inv G' s' → C.Others t G' → Safe C t n p G' s'

/-- What it asks of one program of task `t`. -/
def Begins (C : Contract K γ) (t : Nat) (G : Nat → γ) (s : σ) (p : Prog σ τ π ρ) : Prop :=
  ∃ g, C.asleep g ∧ C.inv (Function.update G t g) s ∧
    ∀ n G' s', G' t = g → C.inv G' s' → C.Others t G' → Safe C t n p G' s'

/-- Code may be started with a ghost of its precondition. -/
theorem Holds.begins {x : Code σ τ π ρ α} (h : ∀ n, Holds C n x P Q) {G : Nat → γ} {s : σ} {g : γ}
    (hi : C.inv (Function.update G t g) s) (hpre : ∀ s, P g s)
    (hrest : ∀ a G (t : Nat) s, C.inv G s → Q a (G t) s → C.rest (G t))
    (ha : C.asleep g := by exact trivial) : Begins C t G s x.toProg := by
  refine ⟨g, ha, hi, fun n G' s' hg hi' ho => Holds.safe h hrest hi' ho ?_ n⟩
  rw [hg]
  exact hpre s'

/-- One step keeps the contract. -/
theorem good_step (hops : Starts C) {c c' : Config σ τ π ρ} {G : Nat → γ}
    (hc : Good C (n + 2) G c) (h : K.Step C.allow c c') : ∃ G', Good C (n + 1) G' c' := by
  cases h with
  | @act t tag u next hr ht ha =>
    have hs := hc.running t hr
    rw [ht] at hs
    obtain ⟨-, g, hg⟩ := (hs c.shared .refl).2 ha
    exact ⟨_, hc.move hr (hg _ .refl).1 hg⟩
  | @ask t next v hr ht =>
    have hs := hc.running t hr
    rw [ht] at hs
    have hv := (hs c.shared .refl).2 v
    rw [← Function.update_eq_self t G] at hv
    exact ⟨_, hc.move hr (by rw [Function.update_eq_self]; exact hc.inv) hv⟩
  | @call t p next hr ht =>
    have hs := hc.running t hr
    rw [ht] at hs
    have hv := (hs c.shared .refl).2
    rw [← Function.update_eq_self t G] at hv
    exact ⟨_, hc.move hr (by rw [Function.update_eq_self]; exact hc.inv) hv⟩
  -- what holds after the sleep is asked for whatever the others do meanwhile
  | @sleep t next hr ht =>
    have hs := hc.running t hr
    rw [ht] at hs
    obtain ⟨ha, hnext⟩ := (hs c.shared .refl).2
    exact ⟨G, hc.stop hr ha hnext⟩
  | @finish t hr ht =>
    have hs := hc.running t hr
    rw [ht] at hs
    have hrest := (hs c.shared .refl).2
    have hstop := hc.stop hr (p := .done) (C.rest_asleep _ hrest) fun G' s hg hi _ s' he =>
      ⟨C.env hi he, show C.rest (G' t) from hg ▸ hrest⟩
    rw [← ht, Function.update_eq_self] at hstop
    exact ⟨G, hstop⟩
  | switch t hr =>
    have hnone : ∀ t', c.running ≠ some t' := by
      intro t' h
      rw [hr] at h
      cases h
    refine ⟨G, hc.inv, ?_, ?_⟩
    · intro t' _
      obtain ⟨ha, hsafe⟩ := hc.asleep t' (hnone t')
      exact ⟨ha, fun G' s hg hi ho => safe_pred (hsafe G' s hg hi ho)⟩
    · intro t' _
      exact safe_pred ((hc.asleep t' (hnone t')).2 G c.shared rfl hc.inv
        fun t'' _ => (hc.asleep t'' (hnone t'')).1)
  | start t p hr ht hp =>
    have hnone : ∀ t', c.running ≠ some t' := by
      intro t' h
      rw [hr] at h
      cases h
    obtain ⟨g, ha, hg, hsafe⟩ := hops t p hp G c.shared hc.inv (hc.rest hr ht)
    refine ⟨Function.update G t g, hg, ?_, fun t' ht' => absurd ht' (hnone t')⟩
    intro t' ht'
    by_cases htt : t' = t
    · subst htt
      rw [Function.update_self]
      refine ⟨ha, fun G' s' hg' hs' ho => ?_⟩
      show Safe C t' (n + 1) (Function.update c.tasks t' p t') G' s'
      rw [Function.update_self]
      exact hsafe (n + 1) G' s' hg' hs' ho
    · obtain ⟨ha', hsafe'⟩ := hc.asleep t' ht'
      rw [Function.update_of_ne htt]
      refine ⟨ha', fun G' s' hg' hs' ho => ?_⟩
      show Safe C t' (n + 1) (Function.update c.tasks t p t') G' s'
      rw [Function.update_of_ne htt]
      exact safe_pred (hsafe' G' s' hg' hs' ho)
  | interrupt s he =>
    refine ⟨G, C.inv_env _ _ _ hc.inv he, ?_, ?_⟩
    · intro t' ht'
      obtain ⟨ha, hsafe⟩ := hc.asleep t' ht'
      exact ⟨ha, fun G' s' hg hi ho => safe_pred (hsafe G' s' hg hi ho)⟩
    · intro t' ht'
      exact safe_pred (safe_env (hc.running t' ht') (.single he))

/-- **Every reachable configuration keeps the contract.** -/
theorem good_reach (hops : Starts C) {c c' : Config σ τ π ρ}
    (hc : ∀ n, ∃ G, Good C (n + 1) G c) (h : K.Reach C.allow c c') (n : Nat) :
    ∃ G, Good C (n + 1) G c' := by
  induction h generalizing n with
  | refl => exact hc n
  | tail _ hs ih =>
    obtain ⟨G, hG⟩ := ih (n + 1)
    exact good_step hops hG hs

/-- An action the running task is about to make, if the run allows it, is one
the specification allows. -/
theorem Good.check {c : Config σ τ π ρ} {G : Nat → γ} (hc : Good C (n + 1) G c) {tag : Option τ}
    {u : σ → σ} {next : σ → Prog σ τ π ρ} (hr : c.running = some t)
    (ht : c.tasks t = .act tag u next) (ha : ∀ x, tag = some x → C.allow x c.shared) :
    C.check tag c.shared (u c.shared) := by
  have hs := hc.running t hr
  rw [ht] at hs
  exact ((hs c.shared .refl).2 ha).1

/-- A machine on which no task has begun. -/
theorem good_idle {G : Nat → γ} {s : σ} (hi : C.inv G s) (hrest : ∀ t, C.rest (G t)) (n : Nat) :
    Good C n G (Config.idle s) := by
  refine ⟨hi, ?_, fun t ht => by cases ht⟩
  intro t _
  refine ⟨C.rest_asleep _ (hrest t), fun G' s' hg hi' _ => ?_⟩
  cases n with
  | zero => trivial
  | succ n =>
    intro s'' he
    exact ⟨C.env hi' he, show C.rest (G' t) from hg ▸ hrest t⟩

/-- **From a machine on which no task has begun**, the invariant holds in every
reachable configuration. -/
theorem reach_idle (hops : Starts C) {G : Nat → γ} {s : σ} (hi : C.inv G s)
    (hrest : ∀ t, C.rest (G t)) {c : Config σ τ π ρ} (h : K.Reach C.allow (Config.idle s) c) :
    ∃ G', Good C 1 G' c :=
  good_reach hops (fun n => ⟨G, good_idle hi hrest (n + 1)⟩) h 0

end Kernel

end Linux011.Lib
