import Mathlib.Tactic.Common
import Mathlib.Logic.Relation
import Mathlib.Logic.Function.Basic
import Mathlib.Data.List.FinRange

/-!
# Signals — `kernel/signal.c` and the exit path of `kernel/system_call.s`

The signal state of the tasks: what is pending, what is blocked and the
32 `sigaction`s. `SIGKILL` is to be neither caught nor blocked. The system
calls refuse it by hand, `do_signal` adds the `sa_mask` of the handler it
enters to the blocked signals as it is.

* `uncaught_reach` — no task ever has a handler for `SIGKILL`;
* `unblocked_step_iff` — one step keeps `SIGKILL` deliverable exactly when it
  enters no handler whose `sa_mask` has it;
* `kill_deliverable` — so in runs of such steps a pending `SIGKILL` is eligible
  in `ret_from_sys_call`, in every task.

User memory is not part of the state: `get_new` gives an arbitrary
`sigaction`, and `save_old` and the frame of `do_signal` are what the routines
hand out.
-/

namespace Linux011.Kernel.Signal

/-- A `long`. -/
abbrev Word := BitVec 32

/-! ## The tasks -/

def sigkill : Nat := 9
def sigchld : Nat := 17
def saNomask : Word := 0x40000000#32
def saOneshot : Word := 0x80000000#32

/-- `struct sigaction`. -/
structure Sigaction where
  saHandler  : Word
  saMask     : Word
  saFlags    : Word
  saRestorer : Word
  deriving DecidableEq, Repr

/-- The signal fields of a task, and whether it has left through `do_exit`. -/
structure Task where
  signal    : Word
  blocked   : Word
  sigaction : Fin 32 → Sigaction
  zombie    : Bool

/-- `1<<(signum-1)`. -/
def bit (signum : Nat) : Word := 1#32 <<< (signum - 1)

/-- The index `signum-1`. -/
def slot (signum : Nat) : Fin 32 := Fin.ofNat 32 (signum - 1)

/-- `sigaction[signum-1] = sa`. -/
def Task.setAction (t : Task) (k : Fin 32) (sa : Sigaction) : Task :=
  { t with sigaction := Function.update t.sigaction k sa }

/-! ## The system calls -/

/-- `sys_ssetmask`. -/
def sysSsetmask (t : Task) (newmask : Word) : Word × Task :=
  (t.blocked, { t with blocked := newmask &&& ~~~bit sigkill })

/-- The guard of `sys_signal` and `sys_sigaction`. -/
def refused (signum : Int) : Bool := signum < 1 || signum > 32 || signum = sigkill

/-- `sys_signal`. -/
def sysSignal (t : Task) (signum : Int) (handler restorer : Word) : Word × Task :=
  if refused signum then
    (-1#32, t)
  else
    let k := slot signum.toNat
    ((t.sigaction k).saHandler, t.setAction k ⟨handler, 0#32, saOneshot ||| saNomask, restorer⟩)

/-- `sys_sigaction`; `action` is what `get_new` reads, the middle result what
`save_old` stores. -/
def sysSigaction (t : Task) (signum : Int) (action : Sigaction) (wanted : Bool) :
    Word × Option Sigaction × Task :=
  if refused signum then
    (-1#32, none, t)
  else
    let k := slot signum.toNat
    let mask := if action.saFlags &&& saNomask ≠ 0#32 then 0#32
      else action.saMask ||| bit signum.toNat
    (0#32, if wanted then some (t.sigaction k) else none, t.setAction k { action with saMask := mask })

/-! ## Delivery -/

/-- The registers `do_signal` reads, as the system call left them on the
kernel stack. -/
structure Regs where
  eax : Word
  ecx : Word
  edx : Word
  eip : Word
  eflags : Word
  esp : Word
  deriving DecidableEq, Repr

/-- What became of a signal: nothing, the task leaves, or it returns into the
handler with the frame pushed onto its stack. -/
inductive Delivery
  | ignored
  | exit (code : Word)
  | entered (t : Task) (regs : Regs) (frame : List Word)

/-- `do_signal`. -/
def doSignal (t : Task) (signr : Nat) (r : Regs) : Delivery :=
  let sa := t.sigaction (slot signr)
  if sa.saHandler = 1#32 then
    .ignored
  else if sa.saHandler = 0#32 then
    if signr = sigchld then .ignored else .exit (bit signr)
  else
    let t' := if sa.saFlags &&& saOneshot ≠ 0#32
      then t.setAction (slot signr) { sa with saHandler := 0#32 } else t
    let nomask := sa.saFlags &&& saNomask ≠ 0#32
    let longs := if nomask then 7#32 else 8#32
    let frame := [sa.saRestorer, BitVec.ofNat 32 signr] ++
      (if nomask then [] else [t.blocked]) ++ [r.eax, r.ecx, r.edx, r.eflags, r.eip]
    .entered { t' with blocked := t.blocked ||| sa.saMask }
      { r with eip := sa.saHandler, esp := r.esp - 4#32 * longs } frame

/-- `bsfl`: the lowest bit set. -/
def bsf (w : Word) : Option (Fin 32) := (List.finRange 32).find? fun i => w.getLsbD i

/-- The signals `ret_from_sys_call` may deliver. -/
def Task.eligible (t : Task) : Word := t.signal &&& ~~~t.blocked

/-- The end of `ret_from_sys_call` on the way back to user mode: the lowest
eligible signal is taken and handed to `do_signal`. -/
def retFromSysCall (t : Task) (r : Regs) : Task :=
  match bsf t.eligible with
  | none => t
  | some k =>
    let t := { t with signal := t.signal &&& ~~~bit (k.val + 1) }
    match doSignal t (k.val + 1) r with
    | .ignored => t
    | .exit _ => { t with zombie := true }
    | .entered t' _ _ => t'

/-! ## Runs -/

/-- `task[]`. -/
abbrev Tasks := Nat → Option Task

/-- What may happen next. `send` and `take` are all the ways in which pending
signals come and go by themselves. -/
inductive Op
  | signal (i : Nat) (signum : Int) (handler restorer : Word)
  | sigaction (i : Nat) (signum : Int) (action : Sigaction) (wanted : Bool)
  | ssetmask (i : Nat) (newmask : Word)
  | ret (i : Nat) (r : Regs)
  | fork (i j : Nat)
  | execve (i : Nat)
  | exit (i : Nat)
  | release (j : Nat)
  | send (j signr : Nat)
  | take (j signr : Nat)

/-- `copy_process`: everything is copied, nothing is pending. -/
def Task.copy (t : Task) : Task := { t with signal := 0#32 }

/-- `do_execve`: every handler is reset, masks and flags stay. -/
def Task.exec (t : Task) : Task :=
  { t with sigaction := fun k => { t.sigaction k with saHandler := 0#32 } }

/-- Task `i` becomes `f` of what it is, unless it has left. -/
def change (s : Tasks) (i : Nat) (f : Task → Task) : Option Tasks :=
  match s i with
  | none => none
  | some t => if t.zombie then none else some (Function.update s i (some (f t)))

/-- One step; `none` when it is not possible. -/
def step (s : Tasks) : Op → Option Tasks
  | .signal i signum handler restorer => change s i fun t => (sysSignal t signum handler restorer).2
  | .sigaction i signum action wanted => change s i fun t => (sysSigaction t signum action wanted).2.2
  | .ssetmask i newmask => change s i fun t => (sysSsetmask t newmask).2
  -- task 0 cannot have signals
  | .ret i r => if i = 0 then some s else change s i fun t => retFromSysCall t r
  | .fork i j =>
    match s i, s j with
    | some t, none => if t.zombie then none else some (Function.update s j (some t.copy))
    | _, _ => none
  | .execve i => change s i Task.exec
  | .exit i => change s i fun t => { t with zombie := true }
  | .release j =>
    match s j with
    | some t => if t.zombie then some (Function.update s j none) else none
    | none => none
  | .send j signr =>
    (s j).map fun t => Function.update s j (some { t with signal := t.signal ||| bit signr })
  | .take j signr =>
    (s j).map fun t => Function.update s j (some { t with signal := t.signal &&& ~~~bit signr })

/-- `INIT_TASK`. -/
def initTask : Task where
  signal := 0#32
  blocked := 0#32
  sigaction := fun _ => ⟨0#32, 0#32, 0#32, 0#32⟩
  zombie := false

/-- The tasks when `main` starts. -/
def boot : Tasks := fun i => if i = 0 then some initTask else none

/-! ## SIGKILL has no handler -/

/-- The bit of `SIGKILL` in a mask. -/
def hasKill (w : Word) : Bool := w.getLsbD 8

/-- There is no handler for `SIGKILL`. -/
def Task.Uncaught (t : Task) : Prop := (t.sigaction 8).saHandler = 0#32

variable {s s' : Tasks} {t : Task}

/-- What the system calls do not refuse is not `SIGKILL`. -/
theorem slot_ne_kill {signum : Int} (h : refused signum = false) : slot signum.toNat ≠ 8 := by
  unfold refused sigkill at h
  simp only [Bool.or_eq_false_iff, decide_eq_false_iff_not] at h
  obtain ⟨⟨h1, h2⟩, h3⟩ := h
  intro heq
  have hval := congrArg Fin.val heq
  have h8 : ((8 : Fin 32) : Nat) = 8 := rfl
  unfold slot at hval
  rw [Fin.val_ofNat, h8] at hval
  omega

theorem slot_succ (k : Fin 32) : slot (k.val + 1) = k := Fin.ofNat_val_eq_self k

@[simp] theorem setAction_of_ne {k : Fin 32} {sa : Sigaction} (h : k ≠ 8) :
    (t.setAction k sa).sigaction 8 = t.sigaction 8 :=
  Function.update_of_ne (Ne.symm h) _ _

theorem Task.Uncaught.signal (h : t.Uncaught) (signum : Int) (handler restorer : Word) :
    (sysSignal t signum handler restorer).2.Uncaught := by
  unfold sysSignal
  cases hr : refused signum with
  | true => exact h
  | false =>
    unfold Task.Uncaught
    simp only [Bool.false_eq_true, if_false, setAction_of_ne (slot_ne_kill hr)]
    exact h

theorem Task.Uncaught.sigaction (h : t.Uncaught) (signum : Int) (action : Sigaction) (wanted : Bool) :
    (sysSigaction t signum action wanted).2.2.Uncaught := by
  unfold sysSigaction
  cases hr : refused signum with
  | true => exact h
  | false =>
    unfold Task.Uncaught
    simp only [Bool.false_eq_true, if_false, setAction_of_ne (slot_ne_kill hr)]
    exact h

/-- A handler is entered as it is, or reset. -/
theorem doSignal_entered {signr : Nat} {r regs : Regs} {frame : List Word} {t' : Task}
    (h : doSignal t signr r = .entered t' regs frame) :
    (t.sigaction (slot signr)).saHandler ≠ 0#32 ∧ (t.sigaction (slot signr)).saHandler ≠ 1#32 ∧
      t'.blocked = t.blocked ||| (t.sigaction (slot signr)).saMask ∧
      ∀ k, (t'.sigaction k).saHandler = (t.sigaction k).saHandler ∨ (t'.sigaction k).saHandler = 0#32 := by
  unfold doSignal at h
  dsimp only at h
  split at h
  · cases h
  · next h1 =>
    split at h
    · split at h <;> cases h
    · next h0 =>
      cases h
      refine ⟨h0, h1, rfl, fun k => ?_⟩
      dsimp only
      split
      · by_cases hk : k = slot signr
        · subst hk
          right
          show (Function.update t.sigaction _ _ _).saHandler = _
          rw [Function.update_self]
        · left
          show (Function.update t.sigaction _ _ _).saHandler = _
          rw [Function.update_of_ne hk]
      · exact Or.inl rfl

/-- Without a handler none is entered. -/
theorem doSignal_stays {signr : Nat} {r : Regs}
    (h : ∀ t' regs frame, doSignal t signr r ≠ .entered t' regs frame) :
    (t.sigaction (slot signr)).saHandler = 0#32 ∨ (t.sigaction (slot signr)).saHandler = 1#32 := by
  by_contra hc
  rw [not_or] at hc
  unfold doSignal at h
  dsimp only at h
  rw [if_neg hc.2, if_neg hc.1] at h
  exact h _ _ _ rfl

/-- What the exit path does to a task: the handler of a signal is entered, or
masks and handlers stay. -/
theorem retFromSysCall_cases (t : Task) (r : Regs) :
    (∃ k, bsf t.eligible = some k ∧ (t.sigaction k).saHandler ≠ 0#32 ∧
      (t.sigaction k).saHandler ≠ 1#32 ∧
      (retFromSysCall t r).blocked = t.blocked ||| (t.sigaction k).saMask ∧
      ∀ m, ((retFromSysCall t r).sigaction m).saHandler = (t.sigaction m).saHandler ∨
        ((retFromSysCall t r).sigaction m).saHandler = 0#32) ∨
    (∀ k, bsf t.eligible = some k →
      (t.sigaction k).saHandler = 0#32 ∨ (t.sigaction k).saHandler = 1#32) ∧
      (retFromSysCall t r).blocked = t.blocked ∧
      (retFromSysCall t r).sigaction = t.sigaction := by
  unfold retFromSysCall
  cases hk : bsf t.eligible with
  | none => exact Or.inr ⟨fun k h => (by cases h), rfl, rfl⟩
  | some k =>
    dsimp only
    set t₁ : Task := { t with signal := t.signal &&& ~~~bit (k.val + 1) }
    cases hd : doSignal t₁ (k.val + 1) r with
    | ignored =>
      refine Or.inr ⟨fun k' h => ?_, rfl, rfl⟩
      cases h
      have hstay : (t₁.sigaction (slot (k.val + 1))).saHandler = 0#32 ∨
          (t₁.sigaction (slot (k.val + 1))).saHandler = 1#32 :=
        doSignal_stays fun _ _ _ he => by rw [hd] at he; cases he
      rw [slot_succ] at hstay
      exact hstay
    | exit code =>
      refine Or.inr ⟨fun k' h => ?_, rfl, rfl⟩
      cases h
      have hstay : (t₁.sigaction (slot (k.val + 1))).saHandler = 0#32 ∨
          (t₁.sigaction (slot (k.val + 1))).saHandler = 1#32 :=
        doSignal_stays fun _ _ _ he => by rw [hd] at he; cases he
      rw [slot_succ] at hstay
      exact hstay
    | entered t' regs frame =>
      obtain ⟨h0, h1, hb, hh⟩ := doSignal_entered hd
      rw [slot_succ] at h0 h1 hb
      exact Or.inl ⟨k, rfl, h0, h1, hb, hh⟩

/-! ## One step -/

/-- `SIGKILL` is not blocked. -/
def Task.Unblocked (t : Task) : Prop := hasKill t.blocked = false

/-- A step enters a handler whose `sa_mask` has `SIGKILL`. -/
def MasksKill (s : Tasks) : Op → Prop
  | .ret i _ => i ≠ 0 ∧ ∃ t k, s i = some t ∧ bsf t.eligible = some k ∧
      (t.sigaction k).saHandler ≠ 0#32 ∧ (t.sigaction k).saHandler ≠ 1#32 ∧
      hasKill (t.sigaction k).saMask = true
  | _ => False

@[simp] theorem hasKill_or (v w : Word) : hasKill (v ||| w) = (hasKill v || hasKill w) :=
  BitVec.getLsbD_or

/-- The guard of `sys_ssetmask`. -/
theorem hasKill_ssetmask (w : Word) : hasKill (w &&& ~~~bit sigkill) = false := by
  unfold hasKill
  rw [BitVec.getLsbD_and, show (~~~bit sigkill).getLsbD 8 = false from rfl, Bool.and_false]

theorem Task.Uncaught.ret (h : t.Uncaught) (r : Regs) : (retFromSysCall t r).Uncaught := by
  unfold Task.Uncaught at h ⊢
  rcases retFromSysCall_cases t r with ⟨k, -, -, -, -, hh⟩ | ⟨-, -, hs⟩
  · rcases hh 8 with he | he
    · rw [he]; exact h
    · exact he
  · rw [hs]; exact h

/-- The exit path keeps `SIGKILL` unblocked unless it enters a handler whose
mask has it. -/
theorem unblocked_ret_iff (hb : t.Unblocked) (r : Regs) :
    (retFromSysCall t r).Unblocked ↔ ∀ k, bsf t.eligible = some k →
      (t.sigaction k).saHandler ≠ 0#32 → (t.sigaction k).saHandler ≠ 1#32 →
      hasKill (t.sigaction k).saMask = false := by
  unfold Task.Unblocked at hb ⊢
  rcases retFromSysCall_cases t r with ⟨k, hk, h0, h1, hblk, -⟩ | ⟨hno, hblk, -⟩
  · rw [hblk, hasKill_or, hb, Bool.false_or]
    constructor
    · intro h k' hk' _ _
      rw [hk] at hk'
      cases hk'
      exact h
    · exact fun h => h k hk h0 h1
  · rw [hblk]
    constructor
    · intro _ k hk h0 h1
      rcases hno k hk with h | h
      · exact absurd h h0
      · exact absurd h h1
    · exact fun _ => hb

/-- A change of one task's fields. -/
theorem change_some {i : Nat} {f : Task → Task} (h : change s i f = some s') :
    ∃ t, s i = some t ∧ s' = Function.update s i (some (f t)) := by
  unfold change at h
  split at h
  · cases h
  · next t ht =>
    split at h
    · cases h
    · cases h
      exact ⟨t, ht, rfl⟩

/-- `P` holds of every task. -/
def All (P : Task → Prop) (s : Tasks) : Prop := ∀ i t, s i = some t → P t

/-- Everything but the exit path keeps `P`. -/
structure Kept (P : Task → Prop) : Prop where
  signal    : ∀ t signum handler restorer, P t → P (sysSignal t signum handler restorer).2
  sigaction : ∀ t signum action wanted, P t → P (sysSigaction t signum action wanted).2.2
  ssetmask  : ∀ t newmask, P t → P (sysSsetmask t newmask).2
  exec      : ∀ t, P t → P t.exec
  exit      : ∀ t, P t → P { t with zombie := true }
  pending   : ∀ t w, P t → P { t with signal := w }

variable {P : Task → Prop}

theorem all_update {i : Nat} (h : All P s) (ht : P t) : All P (Function.update s i (some t)) := by
  intro j u hu
  by_cases hj : j = i
  · subst hj
    rw [Function.update_self] at hu
    cases hu
    exact ht
  · rw [Function.update_of_ne hj] at hu
    exact h j u hu

theorem all_change {i : Nat} {f : Task → Task} (h : All P s) (hf : ∀ t, s i = some t → P t → P (f t))
    (hc : change s i f = some s') : All P s' := by
  obtain ⟨t, ht, rfl⟩ := change_some hc
  exact all_update h (hf t ht (h i t ht))

/-- A step keeps what everything but the exit path keeps, if its exit path
does. -/
theorem all_step (K : Kept P) (h : All P s) {op : Op} (hs : step s op = some s')
    (hret : ∀ i r, op = .ret i r → i ≠ 0 → ∀ t, s i = some t → P t → P (retFromSysCall t r)) :
    All P s' := by
  cases op with
  | signal i signum handler restorer =>
    exact all_change h (fun t _ => K.signal t signum handler restorer) hs
  | sigaction i signum action wanted =>
    exact all_change h (fun t _ => K.sigaction t signum action wanted) hs
  | ssetmask i newmask => exact all_change h (fun t _ => K.ssetmask t newmask) hs
  | ret i r =>
    unfold step at hs
    dsimp only at hs
    split at hs
    · cases hs
      exact h
    · next hi => exact all_change h (hret i r rfl hi) hs
  | fork i j =>
    unfold step at hs
    dsimp only at hs
    split at hs
    · next t ht _ =>
      split at hs
      · cases hs
      · cases hs
        exact all_update h (K.pending t 0#32 (h i t ht))
    · cases hs
  | execve i => exact all_change h (fun t _ => K.exec t) hs
  | exit i => exact all_change h (fun t _ => K.exit t) hs
  | release j =>
    unfold step at hs
    dsimp only at hs
    split at hs
    · split at hs
      · cases hs
        intro k u hu
        by_cases hk : k = j
        · subst hk
          rw [Function.update_self] at hu
          cases hu
        · rw [Function.update_of_ne hk] at hu
          exact h k u hu
      · cases hs
    · cases hs
  | send j signr =>
    obtain ⟨t, ht, rfl⟩ := Option.map_eq_some_iff.mp hs
    exact all_update h (K.pending t _ (h j t ht))
  | take j signr =>
    obtain ⟨t, ht, rfl⟩ := Option.map_eq_some_iff.mp hs
    exact all_update h (K.pending t _ (h j t ht))

theorem kept_uncaught : Kept Task.Uncaught where
  signal := fun _ signum handler restorer h => h.signal signum handler restorer
  sigaction := fun _ signum action wanted h => h.sigaction signum action wanted
  ssetmask := fun _ _ h => h
  exec := fun _ _ => rfl
  exit := fun _ h => h
  pending := fun _ _ h => h

theorem kept_unblocked : Kept Task.Unblocked where
  signal := by
    intro t signum handler restorer h
    unfold sysSignal
    split <;> exact h
  sigaction := by
    intro t signum action wanted h
    unfold sysSigaction
    split <;> exact h
  ssetmask := fun _ newmask _ => hasKill_ssetmask newmask
  exec := fun _ h => h
  exit := fun _ h => h
  pending := fun _ _ h => h

theorem uncaught_step (h : All Task.Uncaught s) {op : Op} (hs : step s op = some s') :
    All Task.Uncaught s' :=
  all_step kept_uncaught h hs fun _ r _ _ _ _ ht => ht.ret r

/-- **One step keeps `SIGKILL` unblocked** exactly when it enters no handler
whose `sa_mask` has it. -/
theorem unblocked_step_iff (h : All Task.Unblocked s) {op : Op} (hs : step s op = some s') :
    All Task.Unblocked s' ↔ ¬ MasksKill s op := by
  constructor
  · intro h' hm
    cases op with
    | ret i r =>
      obtain ⟨hi, t, k, ht, hk, h0, h1, hmask⟩ := hm
      unfold step at hs
      dsimp only at hs
      rw [if_neg hi] at hs
      obtain ⟨u, hu, rfl⟩ := change_some hs
      rw [ht] at hu
      cases hu
      have hnext := h' i _ (Function.update_self _ _ _)
      rw [(unblocked_ret_iff (h i t ht) r).mp hnext k hk h0 h1] at hmask
      cases hmask
    | _ => exact hm
  · intro hno
    refine all_step kept_unblocked h hs ?_
    rintro i r rfl hi t ht hb
    refine (unblocked_ret_iff hb r).mpr fun k hk h0 h1 => ?_
    by_contra hc
    rw [Bool.not_eq_false] at hc
    exact hno ⟨hi, t, k, ht, hk, h0, h1, hc⟩

/-! ## Runs -/

/-- Any step. -/
def Next (s s' : Tasks) : Prop := ∃ op, step s op = some s'

/-- A step that enters no handler whose `sa_mask` has `SIGKILL`. -/
def Safe (s s' : Tasks) : Prop := ∃ op, ¬ MasksKill s op ∧ step s op = some s'

theorem all_boot (h : P initTask) : All P boot := by
  intro i t ht
  unfold boot at ht
  split at ht
  · cases ht
    exact h
  · cases ht

/-- **No task ever has a handler for `SIGKILL`.** -/
theorem uncaught_reach (h : Relation.ReflTransGen Next boot s) : All Task.Uncaught s := by
  induction h with
  | refl => exact all_boot rfl
  | tail _ hs ih =>
    obtain ⟨op, hs⟩ := hs
    exact uncaught_step ih hs

theorem unblocked_reach (h : Relation.ReflTransGen Safe boot s) : All Task.Unblocked s := by
  induction h with
  | refl => exact all_boot rfl
  | tail _ hs ih =>
    obtain ⟨op, hno, hs⟩ := hs
    exact (unblocked_step_iff ih hs).mpr hno

/-- `SIGKILL` is neither blocked nor caught, and eligible when it is pending. -/
def KillWorks (s : Tasks) : Prop := ∀ i t, s i = some t → hasKill t.blocked = false ∧
  (t.sigaction 8).saHandler = 0#32 ∧ (hasKill t.signal = true → hasKill t.eligible = true)

/-- **`SIGKILL` can be neither blocked nor caught** in a run in which no handler
is entered whose `sa_mask` has it; so a task can always be got rid of. -/
theorem kill_deliverable (h : Relation.ReflTransGen Safe boot s) : KillWorks s := by
  intro i t ht
  have hb : hasKill t.blocked = false := unblocked_reach h i t ht
  have hany : Relation.ReflTransGen Next boot s := h.lift id fun _ _ ⟨op, _, hs⟩ => ⟨op, hs⟩
  refine ⟨hb, uncaught_reach hany i t ht, fun hp => ?_⟩
  unfold hasKill at hb hp ⊢
  unfold Task.eligible
  rw [BitVec.getLsbD_and, BitVec.getLsbD_not, hb, hp]
  rfl

/-- The steps of a list, one after the other. -/
def run (s : Tasks) : List Op → Option Tasks
  | [] => some s
  | op :: ops => (step s op).bind (run · ops)

/-- A list of steps that are all of one kind. -/
theorem chain_of_run {R : Tasks → Tasks → Prop} {ops : List Op}
    (hR : ∀ op ∈ ops, ∀ s s', step s op = some s' → R s s') (h : run s ops = some s') :
    Relation.ReflTransGen R s s' := by
  induction ops generalizing s with
  | nil =>
    cases h
    exact .refl
  | cons op ops ih =>
    obtain ⟨u, hu, hrun⟩ := Option.bind_eq_some_iff.mp h
    have hrest : Relation.ReflTransGen R u s' :=
      ih (fun op' hop => hR op' (List.mem_cons_of_mem op hop)) hrun
    exact .head (hR op List.mem_cons_self s u hu) hrest

/-- Task 1 blocks all it can, then signal 15 only, sets a handler for signal 10, whose
`sa_mask` has signal 12, and gets signal 10. -/
def handled : List Op :=
  [.fork 0 1, .ssetmask 1 (-1#32), .ssetmask 1 (bit 15),
    .sigaction 1 10 ⟨0x1000#32, bit 12, 0#32, 0x2000#32⟩ false, .send 1 10]

def enterHandler : Op := .ret 1 ⟨0#32, 0#32, 0#32, 0x100#32, 0x202#32, 0x3fffff0#32⟩

/-- In the handler it gets `SIGKILL`. -/
theorem kill_deliverable_handler : ∃ s, run boot (handled ++ [enterHandler, .send 1 sigkill]) = some s ∧
    (s 1).map (fun t => (t.blocked, hasKill t.eligible)) = some (bit 10 ||| bit 12 ||| bit 15, true) ∧
    KillWorks s := by
  obtain ⟨u, hu⟩ : ∃ u, run boot handled = some u := ⟨_, rfl⟩
  -- the handler of signal 10 is entered, and its mask has not `SIGKILL`
  have hmask : ((run boot handled).bind (· 1)).map
      (fun t => (bsf t.eligible, hasKill (t.sigaction 9).saMask)) = some (some 9, false) := by decide
  rw [hu] at hmask
  have hno : ¬ MasksKill u enterHandler := by
    rintro ⟨-, t, k, ht, hk, -, -, hkill⟩
    rw [Option.bind_some, ht, Option.map_some, Option.some_inj, Prod.mk.injEq, hk, Option.some_inj] at hmask
    rw [hmask.1, hmask.2] at hkill
    cases hkill
  obtain ⟨v, hv⟩ : ∃ v, step u enterHandler = some v := by
    cases hu
    exact ⟨_, rfl⟩
  obtain ⟨s, hs⟩ : ∃ s, step v (.send 1 sigkill) = some s := by
    cases hu
    cases hv
    exact ⟨_, rfl⟩
  have hcalls : ∀ op ∈ handled, ∀ s, ¬ MasksKill s op := by simp [handled, MasksKill]
  have hsafe : Relation.ReflTransGen Safe boot u :=
    chain_of_run (fun op hop s _ hs => ⟨op, hcalls op hop s, hs⟩) hu
  refine ⟨s, ?_, ?_, kill_deliverable ((hsafe.tail ⟨_, hno, hv⟩).tail ⟨_, id, hs⟩)⟩
  · cases hu
    cases hv
    exact hs
  · cases hu
    cases hv
    cases hs
    decide

/-- Task 1 sets a handler for signal 10 whose `sa_mask` has `SIGKILL`, and gets
signal 10. -/
def shield : List Op :=
  [.fork 0 1, .sigaction 1 10 ⟨0x1000#32, bit sigkill, 0#32, 0x2000#32⟩ false, .send 1 10,
    .ret 1 ⟨0#32, 0#32, 0#32, 0x100#32, 0x202#32, 0x3fffff0#32⟩, .send 1 sigkill]

/-- After that its `SIGKILL` is pending and not eligible. -/
theorem kill_shielded : ∃ s, Relation.ReflTransGen Next boot s ∧ ¬ KillWorks s := by
  have hrun : ((run boot shield).bind (· 1)).map (fun t => hasKill t.blocked) = some true := by
    decide
  obtain ⟨t, ht, hb⟩ := Option.map_eq_some_iff.mp hrun
  obtain ⟨s, hs, ht⟩ := Option.bind_eq_some_iff.mp ht
  refine ⟨s, chain_of_run (fun op _ _ _ hs => ⟨op, hs⟩) hs, fun h => ?_⟩
  rw [(h 1 t ht).1] at hb
  cases hb

end Linux011.Kernel.Signal
