import Mathlib.Tactic.Common
import Mathlib.Logic.Function.Basic

/-!
# The coprocessor — lazy switching of the 387

One FPU for all tasks. Its registers stay with the task that used it last
(`last_task_used_math`) across task switches; a task switch sets TS, the next
FPU instruction traps, and only then `math_state_restore` saves and loads.
`switch_to` clears TS when the task resumed is the owner; `copy_process`,
`do_execve` and `do_exit` touch the owner as well.

* `Sim` — one FPU with an owner stands for an FPU per task;
* `sim_step` — every step keeps it, except a fork by the owner whose registers
  are not initial and an instruction that runs untrapped on registers that
  belong to nobody;
* `private_fpu` — so in all other runs the tasks see what they would see with
  an FPU of their own.

`F` is the contents of the FPU, `default` what `fninit` leaves. A trap and the
instruction that caused it are two steps: a timer interrupt may come between
them.
-/

namespace Linux011.Kernel.Math

variable {F : Type} [Inhabited F]

/-! ## The kernel -/

/-- The coprocessor fields of a task. A task is `fresh` until it first runs:
it does not come back out of `switch_to` then. -/
structure Task (F : Type) where
  i387     : F
  usedMath : Bool
  fresh    : Bool
  zombie   : Bool

structure State (F : Type) where
  fpu                  : F
  ts                   : Bool
  lastTaskUsedMath     : Option Nat
  current              : Nat
  task                 : Nat → Option (Task F)

/-- What may happen next. `instr f` is an FPU instruction that changes the
contents by `f`; `fork n ok` goes on to copy the memory, which may fail;
`exit n` leaves for task `n`. -/
inductive Op (F : Type)
  | switch (n : Nat)
  | trap
  | instr (f : F → F)
  | fork (n : Nat) (ok : Bool)
  | execve
  | exit (n : Nat)
  | release (n : Nat)

/-- `tss.i387` of task `n` gets the contents `c`. -/
def State.save (s : State F) (n : Nat) (c : F) : Nat → Option (Task F) :=
  Function.update s.task n ((s.task n).map fun t => { t with i387 := c })

/-- `fnsave` into the task that used the FPU last. -/
def State.fnsaveLast (s : State F) : State F :=
  match s.lastTaskUsedMath with
  | some l => { s with task := s.save l s.fpu, fpu := default }
  | none => s

/-- `last_task_used_math=current`, and `frstor` or `fninit`. -/
def State.frstorCurrent (s : State F) : State F :=
  match s.task s.current with
  | some t =>
    if t.usedMath then
      { s with lastTaskUsedMath := some s.current, fpu := t.i387 }
    else
      { s with
        lastTaskUsedMath := some s.current
        fpu := default
        task := Function.update s.task s.current (some { t with usedMath := true }) }
  | none => { s with lastTaskUsedMath := some s.current }

/-- `math_state_restore`. -/
def State.mathStateRestore (s : State F) : State F :=
  if s.lastTaskUsedMath = some s.current then s else s.fnsaveLast.frstorCurrent

/-- `_device_not_available`, without emulation. -/
def State.deviceNotAvailable (s : State F) : State F :=
  { s with ts := false }.mathStateRestore

/-- `switch_to`: the task switch sets TS; a task that comes out of its own
`switch_to` clears it if it is the owner. -/
def State.switchTo (s : State F) (n : Nat) : Option (State F) :=
  match s.task n with
  | none => none
  | some t =>
    if t.zombie then none
    else if n = s.current then some s
    else some { s with
      current := n
      ts := t.fresh || s.lastTaskUsedMath != some n
      task := Function.update s.task n (some { t with fresh := false }) }

/-- The coprocessor part of `copy_process` into slot `n`. -/
def State.copyProcess (s : State F) (n : Nat) (ok : Bool) : Option (State F) :=
  match s.task s.current, s.task n with
  | some t, none =>
    let owner := s.lastTaskUsedMath = some s.current
    let child := { t with fresh := true, i387 := if owner then s.fpu else t.i387 }
    some { s with
      ts := if owner then false else s.ts
      fpu := if owner then default else s.fpu
      task := if ok then Function.update s.task n (some child) else s.task }
  | _, _ => none

/-- `if (last_task_used_math == current) last_task_used_math = NULL`. -/
def State.disown (s : State F) : Option Nat :=
  if s.lastTaskUsedMath = some s.current then none else s.lastTaskUsedMath

/-- Task `current` becomes `f` of what it is. -/
def State.update (s : State F) (f : Task F → Task F) : Nat → Option (Task F) :=
  Function.update s.task s.current ((s.task s.current).map f)

/-- The coprocessor part of `do_execve`. -/
def State.doExecve (s : State F) : State F :=
  { s with lastTaskUsedMath := s.disown, task := s.update fun t => { t with usedMath := false } }

/-- The coprocessor part of `do_exit`, and `schedule`. -/
def State.doExit (s : State F) (n : Nat) : Option (State F) :=
  if n = s.current then none
  else { s with lastTaskUsedMath := s.disown, task := s.update fun t => { t with zombie := true } }.switchTo n

/-- `release`. -/
def State.release (s : State F) (n : Nat) : Option (State F) :=
  match s.task n with
  | some t => if t.zombie then some { s with task := Function.update s.task n none } else none
  | none => none

/-- One step; `none` when it is not possible. An FPU instruction traps while TS
is set and is executed while it is clear. -/
def State.step (s : State F) : Op F → Option (State F)
  | .switch n => s.switchTo n
  | .trap => if s.ts then some s.deviceNotAvailable else none
  | .instr f => if s.ts then none else some { s with fpu := f s.fpu }
  | .fork n ok => s.copyProcess n ok
  | .execve => some s.doExecve
  | .exit n => s.doExit n
  | .release n => s.release n

/-! ## An FPU for every task -/

/-- Every task has its own contents. -/
structure Ideal (F : Type) where
  current : Nat
  fpu     : Nat → F

/-- The same steps there: a fork copies the contents, `execve` makes them
initial, a trap is nothing. -/
def Ideal.step (v : Ideal F) : Op F → Ideal F
  | .switch n => { v with current := n }
  | .trap => v
  | .instr f => { v with fpu := Function.update v.fpu v.current (f (v.fpu v.current)) }
  | .fork n ok => if ok then { v with fpu := Function.update v.fpu n (v.fpu v.current) } else v
  | .execve => { v with fpu := Function.update v.fpu v.current default }
  | .exit n => { v with current := n }
  | .release _ => v

/-- The contents the instructions of a run find, in order; `none` when a step
is not possible. -/
def State.seen (s : State F) : List (Op F) → Option (List F)
  | [] => some []
  | op :: ops => do
    let s' ← s.step op
    let rest ← s'.seen ops
    match op with
    | .instr _ => return s.fpu :: rest
    | _ => return rest

def Ideal.seen (v : Ideal F) : List (Op F) → List F
  | [] => []
  | op :: ops =>
    match op with
    | .instr _ => v.fpu v.current :: (v.step op).seen ops
    | _ => (v.step op).seen ops

/-- When `main` starts: `check_x87` has initialised the FPU, TS is clear. -/
def boot : State F where
  fpu := default
  ts := false
  lastTaskUsedMath := none
  current := 0
  task := fun n => if n = 0 then some ⟨default, false, false, false⟩ else none

def Ideal.boot : Ideal F := ⟨0, fun _ => default⟩

/-! ## Owner and saved contents -/

/-- What a task would find if it used the FPU now. -/
def State.contents (s : State F) (n : Nat) (t : Task F) : F :=
  if s.lastTaskUsedMath = some n then s.fpu else if t.usedMath then t.i387 else default

/-- The task in slot `n` is there to run, and has run before. -/
def State.Running (s : State F) (n : Nat) : Prop :=
  ∃ t, s.task n = some t ∧ t.zombie = false ∧ t.fresh = false

/-- The owner is a task that uses the FPU, and every task has its contents:
the owner in the FPU, the others in `tss.i387` unless they have none yet. -/
structure Holds (s : State F) (fpu : Nat → F) : Prop where
  owner    : ∀ n, s.lastTaskUsedMath = some n →
    ∃ t, s.task n = some t ∧ t.zombie = false ∧ t.fresh = false ∧ t.usedMath = true
  contents : ∀ n t, s.task n = some t → t.zombie = false → fpu n = s.contents n t

/-- One FPU with an owner stands for an FPU per task. -/
structure Sim (s : State F) (v : Ideal F) : Prop extends Holds s v.fpu where
  current  : v.current = s.current
  running  : s.Running s.current

/-- The step neither reinitialises registers that are in use nor uses
registers that belong to nobody: a fork by the owner finds them initial, an
instruction is executed by the owner. -/
def State.Careful (s : State F) : Op F → Prop
  | .fork _ _ => s.lastTaskUsedMath = some s.current → s.fpu = default
  | .instr _ => s.ts = false → s.lastTaskUsedMath = some s.current
  | _ => True

variable {s s' : State F} {v : Ideal F}

theorem contents_owner {n : Nat} {t : Task F} (h : s.lastTaskUsedMath = some n) :
    s.contents n t = s.fpu :=
  if_pos h

theorem contents_other {n : Nat} {t : Task F} (h : s.lastTaskUsedMath ≠ some n) :
    s.contents n t = if t.usedMath then t.i387 else default :=
  if_neg h

/-- Contents depend on the FPU, its owner and the task alone. -/
theorem contents_congr {n : Nat} {t t' : Task F} (hf : s'.fpu = s.fpu)
    (hl : s'.lastTaskUsedMath = s.lastTaskUsedMath) (hu : t'.usedMath = t.usedMath)
    (hi : t'.i387 = t.i387) : s'.contents n t' = s.contents n t := by
  unfold State.contents
  rw [hf, hl, hu, hi]

/-! ## One step -/

/-- The `fnsave`: only the saved contents of the owner change. -/
theorem fnsaveLast_task (s : State F) (n : Nat) : s.fnsaveLast.task n =
    (s.task n).map fun t => if s.lastTaskUsedMath = some n then { t with i387 := s.fpu } else t := by
  unfold State.fnsaveLast
  cases hl : s.lastTaskUsedMath with
  | none => simp
  | some l =>
    show s.save l s.fpu n = _
    unfold State.save
    by_cases hn : n = l
    · subst hn
      rw [Function.update_self]
      simp
    · rw [Function.update_of_ne hn]
      have hne : some l ≠ some n := fun h => hn (Option.some.inj h).symm
      simp [hne]

theorem fnsaveLast_current (s : State F) : s.fnsaveLast.current = s.current := by
  unfold State.fnsaveLast
  split <;> rfl

/-- The `frstor` or `fninit`. -/
theorem frstorCurrent_spec {t : Task F} (ht : s.task s.current = some t) :
    s.frstorCurrent.current = s.current ∧ s.frstorCurrent.lastTaskUsedMath = some s.current ∧
      s.frstorCurrent.fpu = (if t.usedMath then t.i387 else default) ∧
      s.frstorCurrent.task = Function.update s.task s.current (some { t with usedMath := true }) := by
  unfold State.frstorCurrent
  rw [ht]
  dsimp only
  split
  · next hu =>
    have hsame : { t with usedMath := true } = t := by rw [← hu]
    refine ⟨rfl, rfl, rfl, ?_⟩
    rw [hsame, ← ht, Function.update_eq_self]
  · exact ⟨rfl, rfl, rfl, rfl⟩

/-- **A trap** gives the FPU to the running task, with its own contents, and
saves those of the last owner. -/
theorem Sim.trap (S : Sim s v) : Sim s.deviceNotAvailable v := by
  unfold State.deviceNotAvailable State.mathStateRestore
  by_cases hown : s.lastTaskUsedMath = some s.current
  · rw [if_pos hown]
    exact ⟨⟨S.owner, S.contents⟩, S.current, S.running⟩
  rw [if_neg hown]
  set s₁ : State F := { s with ts := false }.fnsaveLast with hs₁
  have hcur : s₁.current = s.current := fnsaveLast_current _
  have htask : ∀ n, s₁.task n =
      (s.task n).map fun t => if s.lastTaskUsedMath = some n then { t with i387 := s.fpu } else t :=
    fnsaveLast_task { s with ts := false }
  obtain ⟨t, ht, hz, hfresh⟩ := S.running
  have ht₁ : s₁.task s₁.current = some t := by
    rw [hcur, htask, ht]
    simp [hown]
  obtain ⟨hc, hl, hf, hu⟩ := frstorCurrent_spec ht₁
  rw [hcur] at hc hl hu
  refine ⟨⟨fun n hn => ?_, fun n u hnu hzu => ?_⟩, S.current.trans hc.symm,
    { t with usedMath := true }, ?_, hz, hfresh⟩
  · rw [hl] at hn
    cases hn
    exact ⟨{ t with usedMath := true }, by rw [hu, Function.update_self], hz, hfresh, rfl⟩
  · by_cases hn : n = s.current
    · subst hn
      rw [contents_owner hl, hf, S.contents _ t ht hz, contents_other hown]
    · have hother : s₁.frstorCurrent.lastTaskUsedMath ≠ some n := by
        rw [hl]
        exact fun h => hn (Option.some.inj h).symm
      rw [hu, Function.update_of_ne hn, htask] at hnu
      obtain ⟨t₀, ht₀, rfl⟩ := Option.map_eq_some_iff.mp hnu
      rw [contents_other hother]
      by_cases hlast : s.lastTaskUsedMath = some n
      · -- the last owner: saved just now
        obtain ⟨t₁, ht₁, hz₁, -, hused⟩ := S.owner n hlast
        rw [ht₀] at ht₁
        cases ht₁
        rw [S.contents n t₀ ht₀ hz₁, contents_owner hlast]
        simp [hlast, hused]
      · rw [if_neg hlast] at hzu ⊢
        rw [S.contents n t₀ ht₀ hzu, contents_other hlast]
  · rw [hc, hu, Function.update_self]

/-- **A task switch** leaves the FPU where it is. -/
theorem Holds.switch {fpu : Nat → F} (H : Holds s fpu) {n : Nat}
    (hrun : n = s.current → s.Running n) (hs : s.switchTo n = some s') : Sim s' ⟨n, fpu⟩ := by
  unfold State.switchTo at hs
  split at hs
  · cases hs
  · next t ht =>
    split at hs
    · cases hs
    · next hz =>
      rw [Bool.not_eq_true] at hz
      split at hs
      · next hn =>
        cases hs
        exact ⟨H, hn, hn ▸ hrun hn⟩
      · cases hs
        refine ⟨⟨fun m hm => ?_, fun m u hu hzu => ?_⟩, rfl,
          { t with fresh := false }, Function.update_self _ _ _, hz, rfl⟩
        · obtain ⟨u, hu, hzu, hfu, huu⟩ := H.owner m hm
          by_cases hmn : m = n
          · subst hmn
            rw [ht] at hu
            cases hu
            exact ⟨{ t with fresh := false }, Function.update_self _ _ _, hz, rfl, huu⟩
          · exact ⟨u, by dsimp only; rw [Function.update_of_ne hmn, hu], hzu, hfu, huu⟩
        · dsimp only at hu
          by_cases hmn : m = n
          · subst hmn
            rw [Function.update_self] at hu
            cases hu
            refine (H.contents m t ht hz).trans ?_
            exact (contents_congr rfl rfl rfl rfl).symm
          · rw [Function.update_of_ne hmn] at hu
            exact H.contents m u hu hzu

/-- **An instruction** of the owner works on its contents. -/
theorem Sim.instr (S : Sim s v) (hown : s.lastTaskUsedMath = some s.current) (f : F → F) :
    v.fpu v.current = s.fpu ∧ Sim { s with fpu := f s.fpu } (v.step (.instr f)) := by
  obtain ⟨t, ht, hz, -⟩ := S.running
  have hmine : v.fpu v.current = s.fpu := by
    rw [S.current, S.contents _ t ht hz, contents_owner hown]
  refine ⟨hmine, ⟨S.owner, fun n u hu hzu => ?_⟩, S.current, S.running⟩
  unfold Ideal.step
  dsimp only
  by_cases hn : n = s.current
  · subst hn
    rw [← S.current, Function.update_self, hmine, S.current]
    exact (contents_owner (s := { s with fpu := f s.fpu }) hown).symm
  · rw [S.current, Function.update_of_ne hn, S.contents n u hu hzu]
    have hother : s.lastTaskUsedMath ≠ some n := by
      rw [hown]
      exact fun h => hn (Option.some.inj h).symm
    rw [contents_other hother]
    exact (contents_other (s := { s with fpu := f s.fpu }) hother).symm

/-- **`copy_process`** by the owner must find the FPU in its initial state, for
the `fnsave` leaves it so. -/
theorem Sim.fork (S : Sim s v) {n : Nat} {ok : Bool}
    (hown : s.lastTaskUsedMath = some s.current → s.fpu = default)
    (hs : s.copyProcess n ok = some s') : Sim s' (v.step (.fork n ok)) := by
  obtain ⟨t, ht, hz, hfresh⟩ := S.running
  unfold State.copyProcess at hs
  rw [ht] at hs
  split at hs
  · next t' _ heq hn =>
    cases heq
    cases hs
    have hfpu : (if s.lastTaskUsedMath = some s.current then default else s.fpu) = s.fpu := by
      split
      · next h => rw [hown h]
      · rfl
    -- nobody is in slot `n`, so nobody there owns the FPU
    have hno : s.lastTaskUsedMath ≠ some n := by
      intro h
      obtain ⟨u, hu, -⟩ := S.owner n h
      rw [hn] at hu
      cases hu
    have hne : s.current ≠ n := by
      rintro heq
      rw [heq, hn] at ht
      cases ht
    rw [hfpu]
    unfold Ideal.step
    cases ok with
    | false => exact ⟨⟨S.owner, S.contents⟩, S.current, S.running⟩
    | true =>
      refine ⟨⟨fun m hm => ?_, fun m u hu hzu => ?_⟩, S.current, t, ?_, hz, hfresh⟩
      · obtain ⟨u, hu, hrest⟩ := S.owner m hm
        refine ⟨u, ?_, hrest⟩
        have hmn : m ≠ n := fun h => hno (h ▸ hm)
        exact (Function.update_of_ne hmn _ _).trans hu
      · simp only [reduceIte] at hu ⊢
        by_cases hmn : m = n
        · subst hmn
          rw [Function.update_self] at hu ⊢
          cases hu
          rw [S.current, S.contents _ t ht hz]
          refine Eq.trans ?_ (contents_other hno).symm
          by_cases how : s.lastTaskUsedMath = some s.current
          · obtain ⟨u, hu, -, -, hused⟩ := S.owner _ how
            rw [ht] at hu
            cases hu
            rw [contents_owner how]
            simp [how, hused]
          · rw [contents_other how]
            simp [how]
        · rw [Function.update_of_ne hmn] at hu ⊢
          exact S.contents m u hu hzu
      · exact (Function.update_of_ne hne _ _).trans ht
  · cases hs

/-- Giving up the FPU: the running task, as `f` leaves it, finds what it has
saved or nothing; the others are not concerned. -/
theorem Sim.disown (S : Sim s v) {f : Task F → Task F} {c : F}
    (hf : ∀ t, (f t).zombie = false → c = if (f t).usedMath then (f t).i387 else default) :
    Holds { s with lastTaskUsedMath := s.disown, task := s.update f }
      (Function.update v.fpu s.current c) := by
  obtain ⟨t, ht, -⟩ := S.running
  have hlast : ∀ n, s.disown = some n → n ≠ s.current ∧ s.lastTaskUsedMath = some n := by
    intro n hn
    unfold State.disown at hn
    split at hn
    · cases hn
    · next h => exact ⟨fun heq => h (heq ▸ hn), hn⟩
  constructor
  · intro n hn
    obtain ⟨hne, hl⟩ := hlast n hn
    obtain ⟨u, hu, hrest⟩ := S.owner n hl
    exact ⟨u, (Function.update_of_ne hne _ _).trans hu, hrest⟩
  · intro n u hu hzu
    unfold State.update at hu
    dsimp only at hu
    by_cases hn : n = s.current
    · subst hn
      rw [Function.update_self, ht] at hu
      cases hu
      rw [Function.update_self, hf t hzu]
      exact (contents_other (fun h => (hlast _ h).1 rfl)).symm
    · rw [Function.update_of_ne hn] at hu ⊢
      rw [S.contents n u hu hzu]
      unfold State.contents
      have hiff : s.disown = some n ↔ s.lastTaskUsedMath = some n := by
        refine ⟨fun h => (hlast n h).2, fun h => ?_⟩
        unfold State.disown
        rw [if_neg, h]
        rw [h]
        exact fun heq => hn (Option.some.inj heq)
      simp only [hiff]

/-- **`do_execve`** leaves a task without contents. -/
theorem Sim.execve (S : Sim s v) : Sim s.doExecve (v.step .execve) := by
  obtain ⟨t, ht, hz, hfresh⟩ := S.running
  have H := S.disown (f := fun t => { t with usedMath := false }) (c := default) (fun _ _ => rfl)
  have hself : s.doExecve.task s.current = some { t with usedMath := false } := by
    show Function.update _ _ _ _ = _
    rw [Function.update_self, ht]
    rfl
  refine ⟨?_, S.current, { t with usedMath := false }, hself, hz, hfresh⟩
  unfold Ideal.step
  dsimp only
  rw [S.current]
  exact H

/-- **`do_exit`** gives the FPU back. -/
theorem Sim.exit (S : Sim s v) {n : Nat} (hs : s.doExit n = some s') : Sim s' (v.step (.exit n)) := by
  unfold State.doExit at hs
  split at hs
  · cases hs
  · next hne =>
    have H := S.disown (f := fun t => { t with zombie := true }) (c := v.fpu s.current)
      (fun _ h => by cases h)
    rw [Function.update_eq_self] at H
    exact H.switch (fun h => absurd h hne) hs

theorem Sim.release (S : Sim s v) {n : Nat} (hs : s.release n = some s') : Sim s' (v.step (.release n)) := by
  unfold State.release at hs
  split at hs
  · next t ht =>
    split at hs
    · next hz =>
      cases hs
      have hkeep : ∀ m u, s.task m = some u → u.zombie = false → Function.update s.task n none m = some u := by
        intro m u hu hzu
        have hmn : m ≠ n := by
          rintro rfl
          rw [ht] at hu
          cases hu
          rw [hz] at hzu
          cases hzu
        rw [Function.update_of_ne hmn, hu]
      refine ⟨⟨fun m hm => ?_, fun m u hu hzu => ?_⟩, S.current, ?_⟩
      · obtain ⟨u, hu, hzu, hrest⟩ := S.owner m hm
        exact ⟨u, hkeep m u hu hzu, hzu, hrest⟩
      · dsimp only at hu
        by_cases hmn : m = n
        · subst hmn
          rw [Function.update_self] at hu
          cases hu
        · rw [Function.update_of_ne hmn] at hu
          exact S.contents m u hu hzu
      · obtain ⟨u, hu, hzu, hfresh⟩ := S.running
        exact ⟨u, hkeep _ u hu hzu, hzu, hfresh⟩
    · cases hs
  · cases hs

/-- **Every careful step** of the kernel is the step of a machine with an FPU
for every task. -/
theorem sim_step (S : Sim s v) {op : Op F} (hc : s.Careful op) (hs : s.step op = some s') :
    Sim s' (v.step op) := by
  cases op with
  | switch n =>
    refine S.toHolds.switch (fun h => ?_) hs
    rw [h]
    exact S.running
  | trap =>
    unfold State.step at hs
    dsimp only at hs
    split at hs
    · cases hs
      exact S.trap
    · cases hs
  | instr f =>
    unfold State.step at hs
    dsimp only at hs
    split at hs
    · cases hs
    · next hts =>
      cases hs
      rw [Bool.not_eq_true] at hts
      exact (S.instr (hc hts) f).2
  | fork n ok => exact S.fork hc hs
  | execve =>
    cases hs
    exact S.execve
  | exit n => exact S.exit hs
  | release n => exact S.release hs

/-! ## Runs -/

theorem sim_boot : Sim (boot : State F) Ideal.boot where
  owner := fun _ h => by cases h
  contents := by
    intro n t ht _
    unfold boot at ht
    dsimp only at ht
    split at ht
    · cases ht
      rfl
    · cases ht
  current := rfl
  running := ⟨⟨default, false, false, false⟩, rfl, rfl, rfl⟩

/-- Every step of the run is careful. -/
def State.AllCareful (s : State F) : List (Op F) → Prop
  | [] => True
  | op :: ops => s.Careful op ∧
    match s.step op with
    | some s' => s'.AllCareful ops
    | none => True

instance [DecidableEq F] (s : State F) : (op : Op F) → Decidable (s.Careful op)
  | .fork _ _ => inferInstanceAs (Decidable (s.lastTaskUsedMath = some s.current → s.fpu = default))
  | .instr _ => inferInstanceAs (Decidable (s.ts = false → s.lastTaskUsedMath = some s.current))
  | .switch _ | .trap | .execve | .exit _ | .release _ => inferInstanceAs (Decidable True)

instance decidableAllCareful [DecidableEq F] : (s : State F) → (ops : List (Op F)) →
    Decidable (s.AllCareful ops)
  | _, [] => inferInstanceAs (Decidable True)
  | s, op :: ops =>
    have : Decidable (match s.step op with | some s' => s'.AllCareful ops | none => True) :=
      match s.step op with
      | some s' => decidableAllCareful s' ops
      | none => inferInstanceAs (Decidable True)
    inferInstanceAs (Decidable (_ ∧ _))

theorem seen_run (S : Sim s v) {ops : List (Op F)} {seen : List F} (hc : s.AllCareful ops)
    (hs : s.seen ops = some seen) : seen = v.seen ops := by
  induction ops generalizing s v seen with
  | nil =>
    cases hs
    rfl
  | cons op ops ih =>
    obtain ⟨hop, hrest⟩ := hc
    rw [State.seen] at hs
    obtain ⟨s₁, hs₁, hs⟩ := Option.bind_eq_some_iff.mp hs
    obtain ⟨rest, hr, hs⟩ := Option.bind_eq_some_iff.mp hs
    rw [hs₁] at hrest
    have hnext := ih (sim_step S hop hs₁) hrest hr
    cases op with
    | instr f =>
      have hts : s.ts = false := by
        by_contra h
        rw [Bool.not_eq_false] at h
        simp [State.step, h] at hs₁
      cases hs
      rw [hnext, ← (S.instr (hop hts) f).1]
      rfl
    | _ =>
      cases hs
      exact hnext

/-- **Private FPU.** In a run whose steps are careful every instruction finds
the contents it would find if the task had an FPU of its own; that the one FPU is
handed over lazily cannot be seen. -/
theorem private_fpu {ops : List (Op F)} {seen : List F} (hc : (boot : State F).AllCareful ops)
    (hs : boot.seen ops = some seen) : seen = Ideal.boot.seen ops :=
  seen_run sim_boot hc hs

/-- Task 0 makes task 1, which loads 7; a second child changes nothing while
task 0 runs. -/
def careful : List (Op Nat) :=
  [.fork 1 true, .switch 1, .trap, .instr fun _ => 7, .switch 0, .fork 2 true, .switch 1, .instr id]

/-- Task 1 loads 7 and makes a child, and looks at its registers. -/
def parentForks : List (Op Nat) :=
  [.fork 1 true, .switch 1, .trap, .instr fun _ => 7, .fork 2 true, .instr id]

/-- Task 1 loads 7 and executes a program that loads 9, is switched out and
looks. -/
def ownerExecs : List (Op Nat) :=
  [.fork 1 true, .switch 1, .trap, .instr fun _ => 7, .execve, .instr fun _ => 9, .switch 0, .switch 1,
    .trap, .instr id]

theorem private_fpu_careful :
    boot.seen careful = some [0, 7] ∧ ∀ seen, boot.seen careful = some seen → seen = Ideal.boot.seen careful :=
  ⟨by decide, fun _ hs => private_fpu (by decide) hs⟩

/-- The parent's 7 is gone; so are the 7 that `execve` should have dropped and
the 9 that it should have kept. -/
theorem shared_fpu :
    boot.seen parentForks = some [0, 0] ∧ Ideal.boot.seen parentForks = [0, 7] ∧
      boot.seen ownerExecs = some [0, 7, 0] ∧ Ideal.boot.seen ownerExecs = [0, 0, 9] := by
  decide

end Linux011.Kernel.Math
