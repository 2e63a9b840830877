import Mathlib.Data.List.Nodup
import Linux011.Kernel.Sched
import Mathlib.Algebra.Group.Int.Defs

/-!
# The process tree

`fork`, `do_exit`, `sys_waitpid` and the signals between them. A task that exits gives its
children to task 1, sleeps while it closes its files, and becomes a zombie; its father
is told with `SIGCHLD` and releases it.

* `process_tree` — as long as task 0 forks only task 1 and task 1 does not exit, fathers
  exist, and a zombie is released once, by its father;
* `child_exit_seen` — `schedule` wakes a task that waits for a child that is a zombie, if
  the task does not block `SIGCHLD`;
* `child_exit_missed` — it does not otherwise.
-/

namespace Linux011.Kernel.Exit

open Linux011.Kernel.Sleep (TaskState)
open Linux011.Kernel.Sched (nrTasks wrap bit sigkill)

def sighup : Nat := 1
def sigchld : Nat := 17

def eintr : Int := 4
def echild : Int := 10

def saNomask : BitVec 32 := 0x40000000
def saOneshot : BitVec 32 := 0x80000000

structure SigAction where
  handler : BitVec 32
  mask    : BitVec 32
  flags   : BitVec 32
  deriving DecidableEq, Repr

/-- Where in the kernel a task may be suspended. -/
inductive Phase
  | user
  /-- In `do_exit`, past the loop over the children. -/
  | exiting (code : Int)
  /-- In `sys_waitpid`. -/
  | waiting (pid : Int) (untraced : Bool)
  deriving DecidableEq, Repr

/-- `serial` numbers the tasks in the order they were made, for the specification only. -/
structure Task extends Sched.Task where
  pid       : Int
  father    : Int
  pgrp      : Int
  session   : Int
  leader    : Bool
  exitCode  : Int
  sigaction : Nat → SigAction
  phase     : Phase
  serial    : Nat

/-- A task that was released, and whose `sys_waitpid` did it; nobody's if it was
`tell_father`. -/
structure Release where
  task   : Task
  waiter : Option Int

structure State where
  task    : Nat → Option Task
  lastPid : Int
  jiffies : Int
  /-- For the specification only. -/
  log     : List Release
  born    : Nat

def State.setTask (s : State) (i : Nat) (t : Task) : State :=
  { s with task := Function.update s.task i (some t) }

/-- A loop over the slots from `k` on. -/
def State.forTasks (s : State) (k : Nat) (f : Task → Task) : State :=
  { s with task := fun i => if k ≤ i ∧ i < nrTasks then (s.task i).map f else s.task i }

def State.modify (s : State) (i : Nat) (f : Task → Task) : State :=
  match s.task i with
  | none => s
  | some t => s.setTask i (f t)

def Task.sendSig (t : Task) (sig : Nat) : Task := { t with signal := t.signal ||| bit sig }

def Task.clearSig (t : Task) (sig : Nat) : Task := { t with signal := t.signal &&& ~~~ bit sig }

/-! ## `fork` -/

def nextPid (p : Int) : Int := if wrap (p + 1) < 0 then 1 else wrap (p + 1)

def State.hasPid (s : State) (p : Int) (i : Nat) : Bool :=
  match s.task i with
  | none => false
  | some t => t.pid = p

/-- The first slot with the pid. -/
def State.findTask (s : State) (p : Int) : Option Nat := (List.range nrTasks).find? (s.hasPid p)

/-- The first loop of `find_empty_process`. Nothing if it takes more rounds. -/
def State.findPid (s : State) : Nat → Int → Option Int
  | 0, _ => none
  | n + 1, p =>
    if (s.findTask (nextPid p)).isSome then s.findPid n (nextPid p) else some (nextPid p)

/-- Its second loop. -/
def State.findEmpty (s : State) : Option Nat :=
  (List.range' 1 (nrTasks - 1)).find? fun i => (s.task i).isNone

/-- `sys_fork`. There may be no page for the task, or for its tables. -/
def State.fork (s : State) (cur n : Nat) (pages : Bool) : Option State :=
  match s.findPid n s.lastPid with
  | none => none
  | some p =>
    match s.task cur, s.findEmpty, pages with
    | some t, some nr, true =>
      some { s.setTask nr { t with
          toTask := t.toTask.child
          pid := p
          father := t.pid
          leader := false
          phase := .user
          serial := s.born } with
        lastPid := p
        born := s.born + 1 }
    | _, _, _ => some { s with lastPid := p }

/-! ## `do_exit` -/

/-- `release`. Nothing if it panics. -/
def State.release (s : State) (i : Nat) (waiter : Option Int) : Option State :=
  match s.task i with
  | none => none
  | some t =>
    if 0 < i ∧ i < nrTasks then
      some { s with task := Function.update s.task i none, log := s.log ++ [⟨t, waiter⟩] }
    else none

def Task.reparent (pid : Int) (t : Task) : Task :=
  if t.father = pid then { t with father := 1 } else t

/-- A child is a zombie already. -/
def State.orphans (s : State) (pid : Int) : Bool :=
  (List.range nrTasks).any fun i =>
    match s.task i with
    | none => false
    | some t => t.father = pid ∧ t.state = .zombie

/-- `send_sig`, with `priv`. -/
def State.sendSig (s : State) (sig i : Nat) : State := s.modify i (·.sendSig sig)

def State.setPhase (s : State) (i : Nat) (phase : Phase) : State :=
  s.modify i fun t => { t with phase := phase }

/-- `do_exit`, up to the first call that sleeps. -/
def State.exit (s : State) (cur : Nat) (code : Int) : State :=
  match s.task cur with
  | none => s
  | some t =>
    let s' := s.forTasks 0 (Task.reparent t.pid)
    (if s.orphans t.pid then s'.sendSig sigchld 1 else s').setPhase cur (.exiting code)

/-- `kill_session`. -/
def Task.hangUp (session : Int) (t : Task) : Task :=
  if t.session = session then t.sendSig sighup else t

def Task.bury (t : Task) (code : Int) : Task := { t with state := .zombie, exitCode := code }

def State.bury (s : State) (i : Nat) (code : Int) : State := s.modify i (·.bury code)

/-- `tell_father`, of the task `cur`. -/
def State.tellFather (s : State) (cur : Nat) (pid : Int) : Option State :=
  if pid = 0 then s.release cur none
  else
    match s.findTask pid with
    | some i => some (s.sendSig sigchld i)
    | none => s.release cur none

/-- The end of `do_exit`. -/
def State.exited (s : State) (cur : Nat) : Option State :=
  match s.task cur with
  | none => none
  | some t =>
    match t.phase with
    | .exiting code =>
      let s := if t.leader then s.forTasks 1 (Task.hangUp t.session) else s
      (s.bury cur code).tellFather cur t.father
    | _ => none

/-! ## `sys_waitpid` -/

/-- `sys_waitpid` looks at the task. -/
def Task.waitsFor (me t : Task) (pid : Int) : Bool :=
  if t.father ≠ me.pid then false
  else if 0 < pid then t.pid = pid
  else if pid = 0 then t.pgrp = me.pgrp
  else if pid ≠ -1 then t.pgrp = -pid
  else true

inductive Found
  | stopped (i : Nat)
  | zombie (i : Nat)
  | nothing (flag : Bool)
  deriving DecidableEq, Repr

/-- The loop, from slot `n` down. -/
def State.scan (s : State) (cur : Nat) (me : Task) (pid : Int) (untraced : Bool) : Nat → Bool → Found
  | 0, flag => .nothing flag
  | n + 1, flag =>
    match s.task (n + 1) with
    | none => s.scan cur me pid untraced n flag
    | some t =>
      if n + 1 = cur ∨ ¬ me.waitsFor t pid then s.scan cur me pid untraced n flag
      else
        match t.state with
        | .stopped => if untraced then .stopped (n + 1) else s.scan cur me pid untraced n flag
        | .zombie => .zombie (n + 1)
        | _ => s.scan cur me pid untraced n true

def State.pidOf (s : State) (i : Nat) : Int := ((s.task i).map (·.pid)).getD 0

/-- `sys_waitpid` from `repeat` on: the state, and what it returns if it does. -/
def State.waitpid (s : State) (cur : Nat) (pid : Int) (nohang untraced : Bool) :
    Option (State × Option Int) :=
  match s.task cur with
  | none => none
  | some me =>
    let back := s.setPhase cur .user
    match s.scan cur me pid untraced (nrTasks - 1) false with
    | .stopped i => some (back, some (s.pidOf i))
    | .zombie i => (back.release i (some me.pid)).map fun s' => (s', some (s.pidOf i))
    | .nothing false => some (back, some (-echild))
    | .nothing true =>
      if nohang then some (back, some 0)
      else some (s.modify cur fun t => { t with state := .interruptible, phase := .waiting pid untraced }, none)

/-- It goes on after `schedule`. -/
def State.resume (s : State) (cur : Nat) : Option (State × Option Int) :=
  match s.task cur with
  | none => none
  | some me =>
    match me.phase with
    | .waiting pid untraced =>
      let s := s.modify cur (·.clearSig sigchld)
      if (me.clearSig sigchld).signal = 0 then s.waitpid cur pid false untraced
      else some (s.setPhase cur .user, some (-eintr))
    | _ => none

/-! ## Signals -/

/-- `schedule`, as far as it changes the states of tasks. -/
def State.schedule (s : State) : State :=
  s.forTasks 1 fun t => { t with toTask := t.toTask.wakeUp s.jiffies }

/-- The signal to be delivered. -/
def Task.pending (t : Task) : Option Nat :=
  ((List.range 32).find? fun b => (t.signal &&& ~~~ t.blocked).getLsbD b).map (· + 1)

/-- `ret_from_sys_call` and `do_signal`: the task, and what it exits with. -/
def Task.deliver (t : Task) : Task × Option Int :=
  match t.pending with
  | none => (t, none)
  | some signr =>
    let t := t.clearSig signr
    let sa := t.sigaction signr
    if sa.handler = 1 then (t, none)
    else if sa.handler = 0 then (t, if signr = sigchld then none else some (2 ^ (signr - 1)))
    else
      let sa' := if sa.flags &&& saOneshot ≠ 0 then { sa with handler := 0 } else sa
      ({ t with sigaction := Function.update t.sigaction signr sa', blocked := t.blocked ||| sa.mask }, none)

/-- `sys_ssetmask`. -/
def Task.ssetmask (t : Task) (newmask : BitVec 32) : Task :=
  { t with blocked := newmask &&& ~~~ bit sigkill }

/-- `sys_signal`. -/
def Task.sysSignal (t : Task) (signum : Nat) (handler : BitVec 32) : Task :=
  if signum < 1 ∨ 32 < signum ∨ signum = sigkill then t
  else { t with sigaction := Function.update t.sigaction signum ⟨handler, 0, saOneshot ||| saNomask⟩ }

/-- `sys_sigaction`. -/
def Task.sysSigaction (t : Task) (signum : Nat) (action : SigAction) : Task :=
  if signum < 1 ∨ 32 < signum ∨ signum = sigkill then t
  else
    let mask := if action.flags &&& saNomask ≠ 0 then 0 else action.mask ||| bit signum
    { t with sigaction := Function.update t.sigaction signum { action with mask := mask } }

/-! ## Runs -/

/-- Which tasks may fork, exit and wait. -/
structure Rules where
  fork : State → Nat → Prop
  exit : State → Nat → Prop
  wait : State → Nat → Int → Prop

/-- What a task in user mode does with its own signals. -/
inductive Own (t : Task) : Task → Prop
  | deliver {u : Task} (h : t.deliver = (u, none)) : Own t u
  | ssetmask (newmask : BitVec 32) : Own t (t.ssetmask newmask)
  | signal (signum : Nat) (handler : BitVec 32) : Own t (t.sysSignal signum handler)
  | sigaction (signum : Nat) (action : SigAction) : Own t (t.sysSigaction signum action)

def State.Runs (s : State) (i : Nat) : Prop :=
  ∃ t, s.task i = some t ∧ t.state = .running ∧ t.phase = .user

/-- Any number of tasks. Task 0 only forks: it is in `pause` ever after. -/
inductive Step (r : Rules) : State → State → Prop
  | fork {s s' : State} (cur n : Nat) (pages : Bool) (hrun : s.Runs cur) (hr : r.fork s cur)
      (hs : s.fork cur n pages = some s') : Step r s s'
  | exit {s : State} (cur : Nat) (code : Int) (hrun : s.Runs cur) (h₀ : cur ≠ 0) (hr : r.exit s cur) :
      Step r s (s.exit cur code)
  | exited {s s' : State} (cur : Nat) (hs : s.exited cur = some s')
      (hrun : ∃ t, s.task cur = some t ∧ t.state = .running) : Step r s s'
  | waitpid {s s' : State} (cur : Nat) (pid : Int) (nohang untraced : Bool) (res : Option Int)
      (hrun : s.Runs cur) (h₀ : cur ≠ 0) (hr : nohang = false → r.wait s cur pid)
      (hs : s.waitpid cur pid nohang untraced = some (s', res)) : Step r s s'
  | resume {s s' : State} (cur : Nat) (pid : Int) (untraced : Bool) (res : Option Int)
      (hrun : ∃ t, s.task cur = some t ∧ t.state = .running ∧ t.phase = .waiting pid untraced)
      (hr : r.wait s cur pid) (hs : s.resume cur = some (s', res)) : Step r s s'
  | own {s : State} (cur : Nat) {t u : Task} (ht : s.task cur = some t) (hrun : s.Runs cur)
      (h : Own t u) : Step r s (s.setTask cur u)
  /-- A signal that is not ignored and has no handler. -/
  | killed {s : State} (cur : Nat) {t u : Task} (code : Int) (ht : s.task cur = some t)
      (hrun : s.Runs cur) (h : t.deliver = (u, some code)) (h₀ : cur ≠ 0) (hr : r.exit s cur) :
      Step r s ((s.setTask cur u).exit cur code)
  /-- `sys_kill`, or an interrupt. -/
  | raise {s : State} (i sig : Nat) : Step r s (s.sendSig sig i)
  /-- A task sleeps in another call, or while it exits. -/
  | sleep {s : State} (cur : Nat) (x : TaskState) {t : Task} (ht : s.task cur = some t)
      (hrun : t.state = .running) (hphase : ∀ pid untraced, t.phase ≠ .waiting pid untraced)
      (hx : x ≠ .zombie) : Step r s (s.setTask cur { t with state := x })
  | wake {s : State} (i : Nat) {t : Task} (ht : s.task i = some t) (hstate : t.state ≠ .zombie) :
      Step r s (s.setTask i { t with state := .running })
  | schedule {s : State} : Step r s s.schedule
  | tick {s : State} (jiffies : Int) : Step r s { s with jiffies := jiffies }

abbrev Reach (r : Rules) : State → State → Prop := Relation.ReflTransGen (Step r)

/-- Task 0, after `sched_init`. -/
def boot : State where
  task i := if i = 0 then some
    { state := .running, counter := 15, priority := 15, signal := 0, blocked := 0, alarm := 0
      pid := 0, father := -1, pgrp := 0, session := 0, leader := false, exitCode := 0
      sigaction := fun _ => ⟨0, 0, 0⟩, phase := .user, serial := 0 } else none
  lastPid := 0
  jiffies := 0
  log := []
  born := 1

/-! ## What the operations do to each task -/

/-- Every task is changed where it is. -/
structure Maps (g : Nat → Task → Task) (s s' : State) : Prop where
  task    : ∀ i, s'.task i = (s.task i).map (g i)
  lastPid : s'.lastPid = s.lastPid
  log     : s'.log = s.log
  born    : s'.born = s.born

variable {s s' s'' : State} {g g' : Nat → Task → Task}

theorem Maps.trans (h : Maps g s s') (h' : Maps g' s' s'') : Maps (fun i => g' i ∘ g i) s s'' :=
  ⟨fun i => by rw [h'.task, h.task, Option.map_map], h'.lastPid.trans h.lastPid,
    h'.log.trans h.log, h'.born.trans h.born⟩

theorem Maps.some (h : Maps g s s') {i : Nat} {u : Task} (hu : s'.task i = some u) :
    ∃ t, s.task i = some t ∧ g i t = u := by
  rw [h.task] at hu
  exact Option.map_eq_some_iff.mp hu

theorem Maps.at (h : Maps g s s') {i : Nat} {t : Task} (ht : s.task i = .some t) :
    s'.task i = .some (g i t) := by
  rw [h.task, ht]
  rfl

theorem maps_modify (i : Nat) (f : Task → Task) :
    Maps (fun j => if j = i then f else id) s (s.modify i f) := by
  unfold State.modify
  cases ht : s.task i with
  | none =>
    refine ⟨fun j => ?_, rfl, rfl, rfl⟩
    by_cases hji : j = i
    · rw [hji, ht]
      rfl
    · rw [if_neg hji, Option.map_id_fun, id]
  | some t =>
    refine ⟨fun j => ?_, rfl, rfl, rfl⟩
    show Function.update s.task i (.some (f t)) j = _
    by_cases hji : j = i
    · rw [hji, Function.update_self, ht, if_pos rfl]
      rfl
    · rw [Function.update_of_ne hji, if_neg hji, Option.map_id_fun, id]

theorem maps_setTask {i : Nat} {t : Task} (u : Task) (ht : s.task i = .some t) :
    Maps (fun j => if j = i then fun _ => u else id) s (s.setTask i u) := by
  have h := maps_modify (s := s) i fun _ => u
  unfold State.modify at h
  rw [ht] at h
  exact h

theorem maps_forTasks (k : Nat) (f : Task → Task) :
    Maps (fun j => if k ≤ j ∧ j < nrTasks then f else id) s (s.forTasks k f) := by
  refine ⟨fun j => ?_, rfl, rfl, rfl⟩
  unfold State.forTasks
  dsimp only
  split_ifs
  · rfl
  · rw [Option.map_id_fun, id]

/-- A task is neither a zombie nor on its way to be one. -/
def Task.Alive (t : Task) : Prop := t.state ≠ .zombie ∧ ∀ code, t.phase ≠ .exiting code

/-- Pids name one task each. -/
structure Table (s : State) : Prop where
  bound     : ∀ i t, s.task i = some t → i < nrTasks
  distinct  : ∀ i j t u, s.task i = some t → s.task j = some u → t.pid = u.pid → i = j
  idle      : ∃ z, s.task 0 = some z ∧ z.pid = 0 ∧ z.Alive
  lastPid   : 0 ≤ s.lastPid
  lastPidLt : s.lastPid < 2147483648

/-- A task that was made is in the table, or was released once. -/
structure Books (s : State) : Prop where
  nodup  : (s.log.map (·.task.serial)).Nodup
  log    : ∀ r, r ∈ s.log → r.task.state = .zombie ∧ r.waiter = some r.task.father ∧ r.task.serial < s.born
  gone   : ∀ r, r ∈ s.log → ∀ i t, s.task i = some t → t.serial ≠ r.task.serial
  serial : ∀ i j t u, s.task i = some t → s.task j = some u → t.serial = u.serial → i = j
  born   : ∀ i t, s.task i = some t → t.serial < s.born
  all    : ∀ k, k < s.born → (∃ r, r ∈ s.log ∧ r.task.serial = k) ∨ ∃ i t, s.task i = some t ∧ t.serial = k

/-- Fathers exist, and are not about to leave. -/
structure Family (s : State) : Prop where
  init   : (s.born = 1 ∧ ∀ i, i ≠ 0 → s.task i = none) ∨ ∃ t, s.task 1 = some t ∧ t.pid = 1 ∧ t.Alive
  father : ∀ i t, 1 < i → s.task i = some t →
    ∃ j u, 0 < j ∧ s.task j = some u ∧ u.pid = t.father ∧ u.Alive

theorem Table.maps (h : Table s) (hm : Maps g s s') (hpid : ∀ i t, s.task i = some t → (g i t).pid = t.pid)
    (halive : ∀ t, s.task 0 = some t → t.Alive → (g 0 t).Alive) : Table s' := by
  obtain ⟨z, hz, hzero, hzlive⟩ := h.idle
  refine ⟨fun i t ht => ?_, fun i j t u ht hu hp => ?_,
    ⟨g 0 z, hm.at hz, (hpid 0 z hz).trans hzero, halive z hz hzlive⟩, hm.lastPid ▸ h.lastPid,
    hm.lastPid ▸ h.lastPidLt⟩
  · obtain ⟨t, ht, -⟩ := hm.some ht
    exact h.bound i t ht
  · obtain ⟨t, ht₀, rfl⟩ := hm.some ht
    obtain ⟨u, hu₀, rfl⟩ := hm.some hu
    rw [hpid i t ht₀, hpid j u hu₀] at hp
    exact h.distinct i j t u ht₀ hu₀ hp

theorem Books.maps (h : Books s) (hm : Maps g s s') 
    (hserial : ∀ i t, s.task i = some t → (g i t).serial = t.serial) : Books s' := by
  refine ⟨hm.log ▸ h.nodup, fun r hr => ?_, fun r hr i t ht => ?_, fun i j t u ht hu hs => ?_,
    fun i t ht => ?_, fun k hk => ?_⟩
  · rw [hm.log] at hr
    rw [hm.born]
    exact h.log r hr
  · rw [hm.log] at hr
    obtain ⟨t, ht₀, rfl⟩ := hm.some ht
    rw [hserial i t ht₀]
    exact h.gone r hr i t ht₀
  · obtain ⟨t, ht₀, rfl⟩ := hm.some ht
    obtain ⟨u, hu₀, rfl⟩ := hm.some hu
    rw [hserial i t ht₀, hserial j u hu₀] at hs
    exact h.serial i j t u ht₀ hu₀ hs
  · obtain ⟨t, ht₀, rfl⟩ := hm.some ht
    rw [hserial i t ht₀, hm.born]
    exact h.born i t ht₀
  · rw [hm.born] at hk
    rw [hm.log]
    rcases h.all k hk with hr | ⟨i, t, ht, hk⟩
    · exact Or.inl hr
    · exact Or.inr ⟨i, g i t, hm.at ht, (hserial i t ht).trans hk⟩

/-- Nobody who has children stops being alive. -/
theorem Family.maps (h : Family s) (hm : Maps g s s') (hpid : ∀ i t, s.task i = some t → (g i t).pid = t.pid)
    (hfather : ∀ i t, s.task i = some t → (g i t).father = t.father)
    (hinit : ∀ t, s.task 1 = some t → t.Alive → (g 1 t).Alive)
    (halive : ∀ i t j u, s.task i = some t → s.task j = some u → u.pid = t.father → u.Alive →
      (g j u).Alive) : Family s' := by
  refine ⟨?_, fun i t hi ht => ?_⟩
  · rcases h.init with ⟨hborn, hnone⟩ | ⟨t, ht, hp, hlive⟩
    · refine Or.inl ⟨hm.born.trans hborn, fun i hi => ?_⟩
      rw [hm.task, hnone i hi]
      rfl
    · exact Or.inr ⟨g 1 t, hm.at ht, (hpid 1 t ht).trans hp, hinit t ht hlive⟩
  · obtain ⟨t, ht₀, rfl⟩ := hm.some ht
    obtain ⟨j, u, hj, hu, hup, hlive⟩ := h.father i t hi ht₀
    exact ⟨j, g j u, hj, hm.at hu, by rw [hpid j u hu, hfather i t ht₀, hup], halive i t j u ht₀ hu hup hlive⟩

/-! ## `fork` -/

theorem hasPid_iff {p : Int} {i : Nat} : s.hasPid p i = true ↔ ∃ t, s.task i = some t ∧ t.pid = p := by
  unfold State.hasPid
  cases s.task i with
  | none => simp
  | some t => simp

theorem findTask_some {p : Int} {i : Nat} (h : s.findTask p = some i) :
    ∃ t, s.task i = some t ∧ t.pid = p :=
  hasPid_iff.mp (List.find?_some h)

theorem findTask_none (ht : Table s) {p : Int} (h : s.findTask p = none) (i : Nat) (t : Task)
    (hi : s.task i = some t) : t.pid ≠ p := by
  intro hp
  have hno := List.find?_eq_none.mp h i (List.mem_range.mpr (ht.bound i t hi))
  exact hno (hasPid_iff.mpr ⟨t, hi, hp⟩)

theorem nextPid_pos {p : Int} (h₀ : 0 ≤ p) (h₁ : p < 2147483648) : 0 < nextPid p := by
  unfold nextPid wrap
  split <;> omega

theorem nextPid_lt (p : Int) : nextPid p < 2147483648 := by
  unfold nextPid wrap
  split <;> omega

theorem findPid_spec {n : Nat} {p q : Int} (h : s.findPid n p = some q) (h₀ : 0 ≤ p)
    (h₁ : p < 2147483648) : 0 < q ∧ q < 2147483648 ∧ s.findTask q = none := by
  induction n generalizing p with
  | zero => cases h
  | succ n ih =>
    unfold State.findPid at h
    split at h
    · exact ih h (Int.le_of_lt (nextPid_pos h₀ h₁)) (nextPid_lt p)
    · rename_i hfree
      cases h
      exact ⟨nextPid_pos h₀ h₁, nextPid_lt p, by simpa using hfree⟩

theorem findEmpty_spec {i : Nat} (h : s.findEmpty = some i) :
    0 < i ∧ i < nrTasks ∧ s.task i = none := by
  have hmem := List.mem_of_find?_eq_some h
  rw [List.mem_range'_1] at hmem
  have hnone := List.find?_some h
  refine ⟨hmem.1, ?_, Option.isNone_iff_eq_none.mp hnone⟩
  unfold nrTasks at hmem ⊢
  omega

/-- What `sys_fork` makes of the task that calls it. -/
def Task.fork (t : Task) (pid : Int) (serial : Nat) : Task :=
  { t with
    toTask := t.toTask.child
    pid := pid
    father := t.pid
    leader := false
    phase := .user
    serial := serial }

/-- A new pid is taken, and there is a new task with it or there is none. -/
theorem fork_spec (h : Table s) {cur n : Nat} {pages : Bool} (hs : s.fork cur n pages = some s') :
    ∃ p, s.findPid n s.lastPid = some p ∧ 0 < p ∧ p < 2147483648 ∧ s.findTask p = none ∧
      (s' = { s with lastPid := p } ∨ ∃ nr t, s.findEmpty = some nr ∧ s.task cur = some t ∧
        s' = { s.setTask nr (t.fork p s.born) with lastPid := p, born := s.born + 1 }) := by
  unfold State.fork at hs
  cases hp : s.findPid n s.lastPid with
  | none =>
    rw [hp] at hs
    cases hs
  | some p =>
    obtain ⟨hpos, hlt, hfree⟩ := findPid_spec hp h.lastPid h.lastPidLt
    refine ⟨p, rfl, hpos, hlt, hfree, ?_⟩
    rw [hp] at hs
    dsimp only at hs
    split at hs
    · rename_i t nr ht hnr
      exact Or.inr ⟨nr, t, hnr, ht, (Option.some.inj hs).symm⟩
    · exact Or.inl (Option.some.inj hs).symm

theorem setTask_at (s : State) (i : Nat) (t : Task) : (s.setTask i t).task i = some t :=
  Function.update_self ..

/-- A task is put into a free slot. -/
theorem setTask_some {nr i : Nat} {u t : Task} (h : (s.setTask nr u).task i = some t) :
    i = nr ∧ t = u ∨ i ≠ nr ∧ s.task i = some t := by
  change Function.update s.task nr (some u) i = some t at h
  by_cases hi : i = nr
  · rw [hi, Function.update_self] at h
    exact Or.inl ⟨hi, (Option.some.inj h).symm⟩
  · rw [Function.update_of_ne hi] at h
    exact Or.inr ⟨hi, h⟩

theorem Table.fork (h : Table s) {cur n : Nat} {pages : Bool} (hs : s.fork cur n pages = some s') :
    Table s' := by
  obtain ⟨p, -, hpos, hlt, hfree, rfl | ⟨nr, t, hnr, ht, rfl⟩⟩ := fork_spec h hs
  · exact ⟨h.bound, h.distinct, h.idle, Int.le_of_lt hpos, hlt⟩
  · obtain ⟨hnr₀, hnr₁, hnone⟩ := findEmpty_spec hnr
    obtain ⟨z, hz, hzero, hlive⟩ := h.idle
    refine ⟨fun i u hu => ?_, fun i j u v hu hv hp => ?_, ⟨z, ?_, hzero, hlive⟩, Int.le_of_lt hpos, hlt⟩
    · rcases setTask_some hu with ⟨rfl, -⟩ | ⟨-, hu₀⟩
      · exact hnr₁
      · exact h.bound i u hu₀
    · rcases setTask_some hu with ⟨rfl, rfl⟩ | ⟨hi, hu₀⟩
      · rcases setTask_some hv with ⟨rfl, -⟩ | ⟨hj, hv₀⟩
        · rfl
        · exact absurd hp.symm (findTask_none h hfree j v hv₀)
      · rcases setTask_some hv with ⟨rfl, rfl⟩ | ⟨hj, hv₀⟩
        · exact absurd hp (findTask_none h hfree i u hu₀)
        · exact h.distinct i j u v hu₀ hv₀ hp
    · show Function.update s.task nr _ 0 = some z
      rw [Function.update_of_ne (by omega), hz]

theorem Books.fork (ht : Table s) (h : Books s) {cur n : Nat} {pages : Bool}
    (hs : s.fork cur n pages = some s') : Books s' := by
  obtain ⟨p, -, -, -, -, rfl | ⟨nr, t, hnr, -, rfl⟩⟩ := fork_spec ht hs
  · exact ⟨h.nodup, h.log, h.gone, h.serial, h.born, h.all⟩
  · obtain ⟨-, -, hnone⟩ := findEmpty_spec hnr
    refine ⟨h.nodup, fun r hr => ?_, fun r hr i u hu => ?_, fun i j u v hu hv hk => ?_, fun i u hu => ?_,
      fun k hk => ?_⟩
    · obtain ⟨hz, hw, hlt⟩ := h.log r hr
      exact ⟨hz, hw, Nat.lt_succ_of_lt hlt⟩
    · rcases setTask_some hu with ⟨-, rfl⟩ | ⟨-, hu₀⟩
      · exact Nat.ne_of_gt (h.log r hr).2.2
      · exact h.gone r hr i u hu₀
    · rcases setTask_some hu with ⟨rfl, rfl⟩ | ⟨hi, hu₀⟩
      · rcases setTask_some hv with ⟨rfl, -⟩ | ⟨hj, hv₀⟩
        · rfl
        · exact absurd hk.symm (Nat.ne_of_lt (h.born j v hv₀))
      · rcases setTask_some hv with ⟨rfl, rfl⟩ | ⟨hj, hv₀⟩
        · exact absurd hk (Nat.ne_of_lt (h.born i u hu₀))
        · exact h.serial i j u v hu₀ hv₀ hk
    · rcases setTask_some hu with ⟨-, rfl⟩ | ⟨-, hu₀⟩
      · exact Nat.lt_succ_self s.born
      · exact Nat.lt_succ_of_lt (h.born i u hu₀)
    · rcases Nat.lt_succ_iff_lt_or_eq.mp hk with hlt | rfl
      · rcases h.all k hlt with hr | ⟨i, u, hu, hk⟩
        · exact Or.inl hr
        · refine Or.inr ⟨i, u, ?_, hk⟩
          have hi : i ≠ nr := by
            rintro rfl
            rw [hnone] at hu
            cases hu
          show Function.update s.task nr _ i = some u
          rw [Function.update_of_ne hi, hu]
      · exact Or.inr ⟨nr, _, setTask_at s nr _, rfl⟩

/-- Task 0 forks only task 1, and task 1 does not exit. -/
def treeRules : Rules where
  fork s cur := cur = 0 → s.born = 1 ∧ s.lastPid = 0
  exit _ cur := cur ≠ 1
  wait _ _ _ := True

theorem findEmpty_first (h : s.task 1 = none) : s.findEmpty = some 1 := by
  unfold State.findEmpty nrTasks
  rw [List.range'_succ, List.find?_cons, h]
  rfl

/-- The first task that is forked is task 1. -/
theorem findPid_first (ht : Table s) (hnone : ∀ i, i ≠ 0 → s.task i = none) {n : Nat} {p : Int}
    (h : s.findPid n 0 = some p) : p = 1 := by
  cases n with
  | zero => cases h
  | succ n =>
    have hfree : s.findTask (nextPid 0) = none := by
      cases hf : s.findTask (nextPid 0) with
      | none => rfl
      | some i =>
        obtain ⟨u, hu, hp⟩ := findTask_some hf
        obtain ⟨z, hz, hzero, -⟩ := ht.idle
        have hi : i = 0 := by
          by_contra hi
          rw [hnone i hi] at hu
          cases hu
        rw [hi, hz] at hu
        cases hu
        rw [hzero] at hp
        exact absurd hp (by decide)
    unfold State.findPid at h
    rw [hfree] at h
    exact (Option.some.inj h).symm

theorem Runs.alive {i : Nat} {t : Task} (h : s.Runs i) (ht : s.task i = some t) : t.Alive := by
  obtain ⟨u, hu, hstate, hphase⟩ := h
  rw [ht] at hu
  cases hu
  refine ⟨?_, fun code => ?_⟩
  · rw [hstate]
    decide
  · rw [hphase]
    exact Phase.noConfusion

theorem fork_alive (t : Task) (pid : Int) (serial : Nat) : (t.fork pid serial).Alive := by
  refine ⟨?_, fun code => ?_⟩
  · show TaskState.running ≠ .zombie
    decide
  · show Phase.user ≠ .exiting code
    exact Phase.noConfusion

theorem Family.fork (ht : Table s) (hb : Books s) (h : Family s) {cur n : Nat} {pages : Bool}
    (hrun : s.Runs cur) (hr : treeRules.fork s cur) (hs : s.fork cur n pages = some s') : Family s' := by
  obtain ⟨p, hp, -, -, -, rfl | ⟨nr, t, hnr, hcur, rfl⟩⟩ := fork_spec ht hs
  · exact ⟨h.init, h.father⟩
  · obtain ⟨-, -, hnone⟩ := findEmpty_spec hnr
    have hkeep : ∀ i u, s.task i = some u → i ≠ nr := by
      rintro i u hu rfl
      rw [hnone] at hu
      cases hu
    -- the first fork, or task 1 is there
    have hfirst : cur = 0 → nr = 1 ∧ p = 1 := by
      intro hzero
      obtain ⟨hborn, hlast⟩ := hr hzero
      obtain ⟨z, hz, -⟩ := ht.idle
      have hall : ∀ i, i ≠ 0 → s.task i = none := by
        intro i hi
        cases hu : s.task i with
        | none => rfl
        | some u =>
          have hlt := hb.born i u hu
          have hlt' := hb.born 0 z hz
          exact absurd (hb.serial i 0 u z hu hz (by omega)) hi
      rw [findEmpty_first (hall 1 (by decide))] at hnr
      rw [hlast] at hp
      exact ⟨(Option.some.inj hnr).symm, findPid_first ht hall hp⟩
    refine ⟨Or.inr ?_, fun i u hi hu => ?_⟩
    · rcases h.init with ⟨-, hall⟩ | ⟨t₁, ht₁, hp₁, hlive₁⟩
      · have hzero : cur = 0 := by
          by_contra hne
          rw [hall cur hne] at hcur
          cases hcur
        obtain ⟨rfl, rfl⟩ := hfirst hzero
        exact ⟨t.fork 1 s.born, setTask_at s 1 _, rfl, fork_alive t 1 s.born⟩
      · exact ⟨t₁, (Function.update_of_ne (hkeep 1 t₁ ht₁) ..).trans ht₁, hp₁, hlive₁⟩
    · rcases setTask_some hu with ⟨rfl, rfl⟩ | ⟨-, hu₀⟩
      · have hpos : cur ≠ 0 := fun hzero => absurd (hfirst hzero).1 (by omega)
        exact ⟨cur, t, Nat.pos_of_ne_zero hpos, (Function.update_of_ne (hkeep cur t hcur) ..).trans hcur, rfl,
          Runs.alive hrun hcur⟩
      · obtain ⟨j, v, hj, hv, hvp, hlive⟩ := h.father i u hi hu₀
        exact ⟨j, v, hj, (Function.update_of_ne (hkeep j v hv) ..).trans hv, hvp, hlive⟩

/-! ## `do_exit` -/

/-- There is a `SIGCHLD`. -/
def Task.Told (t : Task) : Prop := t.signal.getLsbD (sigchld - 1) = true

theorem told_sendSig {t : Task} (sig : Nat) (h : t.Told) : (t.sendSig sig).Told := by
  unfold Task.Told Task.sendSig at *
  rw [BitVec.getLsbD_or, h, Bool.true_or]

theorem told_sigchld (t : Task) : (t.sendSig sigchld).Told := by
  unfold Task.Told Task.sendSig
  rw [BitVec.getLsbD_or, show (bit sigchld).getLsbD (sigchld - 1) = true by decide, Bool.or_true]

/-- What `do_exit`, called by `t` in slot `cur`, does to each task before it sleeps. -/
structure Exits (s : State) (cur : Nat) (t : Task) (code : Int) (i : Nat) (u u' : Task) : Prop where
  pid     : u'.pid = u.pid
  pgrp    : u'.pgrp = u.pgrp
  serial  : u'.serial = u.serial
  state   : u'.state = u.state
  blocked : u'.blocked = u.blocked
  father  : u'.father = if u.father = t.pid ∧ i < nrTasks then 1 else u.father
  phase   : u'.phase = if i = cur then .exiting code else u.phase
  told    : u.Told → u'.Told
  orphans : i = 1 → s.orphans t.pid = true → u'.Told

/-- The parts of a task that do not change when it gets a signal or another father. -/
structure Same (t t' : Task) : Prop where
  pid     : t'.pid = t.pid
  pgrp    : t'.pgrp = t.pgrp
  serial  : t'.serial = t.serial
  state   : t'.state = t.state
  blocked : t'.blocked = t.blocked
  phase   : t'.phase = t.phase

theorem Same.trans {t u v : Task} (h : Same t u) (h' : Same u v) : Same t v :=
  ⟨h'.pid.trans h.pid, h'.pgrp.trans h.pgrp, h'.serial.trans h.serial, h'.state.trans h.state,
    h'.blocked.trans h.blocked, h'.phase.trans h.phase⟩

/-- A signal at one slot. -/
theorem sendSig_at (sig j i : Nat) (t : Task) :
    Same t ((if i = j then (·.sendSig sig) else id) t) ∧
    ((if i = j then (·.sendSig sig) else id) t).father = t.father ∧
    (t.Told → ((if i = j then (·.sendSig sig) else id) t).Told) := by
  split_ifs
  · exact ⟨⟨rfl, rfl, rfl, rfl, rfl, rfl⟩, rfl, told_sendSig sig⟩
  · exact ⟨⟨rfl, rfl, rfl, rfl, rfl, rfl⟩, rfl, id⟩

theorem same_reparent (pid : Int) (t : Task) : Same t (t.reparent pid) := by
  unfold Task.reparent
  split <;> exact ⟨rfl, rfl, rfl, rfl, rfl, rfl⟩

theorem reparent_father (pid : Int) (t : Task) :
    (t.reparent pid).father = if t.father = pid then 1 else t.father := by
  unfold Task.reparent
  split_ifs <;> rfl

theorem reparent_signal (pid : Int) (t : Task) : (t.reparent pid).signal = t.signal := by
  unfold Task.reparent
  split_ifs <;> rfl

theorem exit_maps {cur : Nat} {t : Task} (ht : s.task cur = some t) (code : Int) :
    ∃ g, Maps g s (s.exit cur code) ∧ ∀ i u, Exits s cur t code i u (g i u) := by
  unfold State.exit
  rw [ht]
  dsimp only
  have hfirst := maps_forTasks (s := s) 0 (Task.reparent t.pid)
  have hlast : ∀ s₁ : State, Maps _ s₁ (s₁.setPhase cur (.exiting code)) := fun s₁ => maps_modify cur _
  -- the children, with or without the signal for task 1, and the task itself
  have hsame : ∀ i u, Same u ((if 0 ≤ i ∧ i < nrTasks then Task.reparent t.pid else id) u) := by
    intro i u
    split_ifs
    · exact same_reparent t.pid u
    · exact ⟨rfl, rfl, rfl, rfl, rfl, rfl⟩
  have hfather : ∀ i u, ((if 0 ≤ i ∧ i < nrTasks then Task.reparent t.pid else id) u).father =
      if u.father = t.pid ∧ i < nrTasks then 1 else u.father := by
    intro i u
    by_cases hi : i < nrTasks
    · rw [if_pos ⟨Nat.zero_le i, hi⟩, reparent_father]
      simp only [hi, and_true]
    · rw [if_neg (fun h => hi h.2), if_neg (fun h => hi h.2)]
      rfl
  have hsignal : ∀ i u, ((if 0 ≤ i ∧ i < nrTasks then Task.reparent t.pid else id) u).signal = u.signal := by
    intro i u
    split_ifs
    · exact reparent_signal t.pid u
    · rfl
  have hphase : ∀ (i : Nat) (u v : Task), Same u v → (v.father = if u.father = t.pid ∧ i < nrTasks then 1 else u.father) →
      (u.Told → v.Told) → (i = 1 → s.orphans t.pid = true → v.Told) →
      Exits s cur t code i u ((if i = cur then fun v => { v with phase := .exiting code } else id) v) := by
    intro i u v hv hvf hvt hvo
    by_cases hi : i = cur
    · simp only [if_pos hi]
      exact ⟨hv.pid, hv.pgrp, hv.serial, hv.state, hv.blocked, hvf, (if_pos hi).symm, hvt, hvo⟩
    · simp only [if_neg hi]
      exact ⟨hv.pid, hv.pgrp, hv.serial, hv.state, hv.blocked, hvf, hv.phase.trans (if_neg hi).symm, hvt, hvo⟩
  by_cases horphans : s.orphans t.pid = true
  · rw [if_pos horphans]
    refine ⟨_, (hfirst.trans (maps_modify 1 _)).trans (hlast _), fun i u => ?_⟩
    obtain ⟨hsig, hsigf, hsigt⟩ :=
      sendSig_at sigchld 1 i ((if 0 ≤ i ∧ i < nrTasks then Task.reparent t.pid else id) u)
    refine hphase i u _ ((hsame i u).trans hsig) (hsigf.trans (hfather i u)) (fun htold => hsigt ?_)
      fun hi _ => ?_
    · unfold Task.Told at htold ⊢
      rw [hsignal]
      exact htold
    · simp only [Function.comp, if_pos hi]
      exact told_sigchld _
  · rw [if_neg horphans]
    refine ⟨_, hfirst.trans (hlast _), fun i u => ?_⟩
    refine hphase i u _ (hsame i u) (hfather i u) (fun htold => ?_) fun _ ho => absurd ho horphans
    unfold Task.Told at htold ⊢
    rw [hsignal]
    exact htold

theorem Table.exit (h : Table s) {cur : Nat} (h₀ : cur ≠ 0) (code : Int) : Table (s.exit cur code) := by
  cases ht : s.task cur with
  | none =>
    unfold State.exit
    rw [ht]
    exact h
  | some t =>
    obtain ⟨g, hm, hg⟩ := exit_maps ht code
    refine h.maps hm (fun i u _ => (hg i u).pid) fun u _ hu => ?_
    unfold Task.Alive
    rw [(hg 0 u).state, (hg 0 u).phase, if_neg (Ne.symm h₀)]
    exact hu

theorem Books.exit (h : Books s) (cur : Nat) (code : Int) : Books (s.exit cur code) := by
  cases ht : s.task cur with
  | none =>
    unfold State.exit
    rw [ht]
    exact h
  | some t =>
    obtain ⟨g, hm, hg⟩ := exit_maps ht code
    exact h.maps hm fun i u _ => (hg i u).serial

/-- The children of the task are task 1's now, which does not exit. -/
theorem Family.exit (ht : Table s) (h : Family s) {cur : Nat} (h₀ : cur ≠ 0) (h₁ : cur ≠ 1)
    (hcur : ∃ t, s.task cur = some t) (code : Int) : Family (s.exit cur code) := by
  obtain ⟨t, hcur⟩ := hcur
  obtain ⟨g, hm, hg⟩ := exit_maps hcur code
  have halive : ∀ j u, j ≠ cur → u.Alive → (g j u).Alive := by
    intro j u hj hu
    unfold Task.Alive
    rw [(hg j u).state, (hg j u).phase, if_neg hj]
    exact hu
  have hinit : ∃ u, (s.exit cur code).task 1 = some u ∧ u.pid = 1 ∧ u.Alive := by
    rcases h.init with ⟨-, hall⟩ | ⟨u, hu, hp, hlive⟩
    · rw [hall cur h₀] at hcur
      cases hcur
    · exact ⟨g 1 u, hm.at hu, (hg 1 u).pid.trans hp, halive 1 u (Ne.symm h₁) hlive⟩
  refine ⟨Or.inr hinit, fun i v hi hv => ?_⟩
  obtain ⟨u, hu, rfl⟩ := hm.some hv
  by_cases hchild : u.father = t.pid
  · obtain ⟨w, hw, hp, hlive⟩ := hinit
    refine ⟨1, w, Nat.one_pos, hw, ?_, hlive⟩
    rw [(hg i u).father, if_pos ⟨hchild, ht.bound i u hu⟩, hp]
  · obtain ⟨j, w, hj, hw, hp, hlive⟩ := h.father i u hi hu
    have hjc : j ≠ cur := by
      rintro rfl
      rw [hcur] at hw
      cases hw
      exact hchild hp.symm
    refine ⟨j, g j w, hj, hm.at hw, ?_, halive j w hjc hlive⟩
    rw [(hg j w).pid, (hg i u).father, if_neg (fun h => hchild h.1), hp]

/-- What the end of `do_exit`, in slot `cur`, does to each task. -/
structure Exited (cur i : Nat) (u u' : Task) : Prop where
  pid     : u'.pid = u.pid
  pgrp    : u'.pgrp = u.pgrp
  serial  : u'.serial = u.serial
  father  : u'.father = u.father
  blocked : u'.blocked = u.blocked
  phase   : u'.phase = u.phase
  state   : u'.state = if i = cur then .zombie else u.state
  told    : u.Told → u'.Told

theorem hangUp_maps (s : State) (t : Task) :
    ∃ g, Maps g s (if t.leader then s.forTasks 1 (Task.hangUp t.session) else s) ∧
      ∀ i u, Same u (g i u) ∧ (g i u).father = u.father ∧ (u.Told → (g i u).Told) := by
  by_cases hleader : t.leader
  · rw [if_pos hleader]
    refine ⟨_, maps_forTasks 1 _, fun i u => ?_⟩
    unfold Task.hangUp
    split_ifs
    · dsimp only
      split_ifs
      · exact ⟨⟨rfl, rfl, rfl, rfl, rfl, rfl⟩, rfl, told_sendSig sighup⟩
      · exact ⟨⟨rfl, rfl, rfl, rfl, rfl, rfl⟩, rfl, id⟩
    · exact ⟨⟨rfl, rfl, rfl, rfl, rfl, rfl⟩, rfl, id⟩
  · rw [if_neg hleader]
    refine ⟨fun _ => id, ⟨fun i => ?_, rfl, rfl, rfl⟩, fun _ _ => ⟨⟨rfl, rfl, rfl, rfl, rfl, rfl⟩, rfl, id⟩⟩
    rw [Option.map_id_fun, id]

/-- The end of `do_exit` up to `tell_father`. -/
theorem exited_eq {cur : Nat} {t : Task} (ht : s.task cur = some t) {code : Int}
    (hphase : t.phase = .exiting code) :
    ∃ s₂ g, s.exited cur = s₂.tellFather cur t.father ∧ Maps g s s₂ ∧ ∀ i u, Exited cur i u (g i u) := by
  obtain ⟨g₁, hm₁, hg₁⟩ := hangUp_maps s t
  unfold State.exited
  rw [ht]
  dsimp only
  rw [hphase]
  dsimp only
  generalize (if t.leader then s.forTasks 1 (Task.hangUp t.session) else s) = s₁ at hm₁ ⊢
  refine ⟨s₁.bury cur code, _, rfl, hm₁.trans (maps_modify cur _), fun i u => ?_⟩
  obtain ⟨hsame, hfather, htold⟩ := hg₁ i u
  by_cases hi : i = cur
  · simp only [Function.comp, if_pos hi]
    exact ⟨hsame.pid, hsame.pgrp, hsame.serial, hfather, hsame.blocked, hsame.phase, (if_pos hi).symm, htold⟩
  · simp only [Function.comp, if_neg hi]
    exact ⟨hsame.pid, hsame.pgrp, hsame.serial, hfather, hsame.blocked, hsame.phase,
      hsame.state.trans (if_neg hi).symm, htold⟩

/-- The father is there: it is told. -/
theorem exited_told (h : Table s) {cur : Nat} {t : Task} (ht : s.task cur = some t) {code : Int}
    (hphase : t.phase = .exiting code) (hzero : t.father ≠ 0) {j : Nat} {f : Task} (hj : s.task j = some f)
    (hf : f.pid = t.father) :
    ∃ s' g, s.exited cur = some s' ∧ Maps g s s' ∧ (∀ i u, Exited cur i u (g i u)) ∧
      ∀ u, (g j u).Told := by
  obtain ⟨s₂, g, heq, hm, hg⟩ := exited_eq ht hphase
  have hfind : s₂.findTask t.father = some j := by
    cases hfind : s₂.findTask t.father with
    | none =>
      have hno := List.find?_eq_none.mp hfind j (List.mem_range.mpr (h.bound j f hj))
      exact absurd (hasPid_iff.mpr ⟨_, hm.at hj, (hg j f).pid.trans hf⟩) hno
    | some i =>
      obtain ⟨u, hu, hp⟩ := findTask_some hfind
      obtain ⟨v, hv, rfl⟩ := hm.some hu
      rw [(hg i v).pid] at hp
      rw [h.distinct i j v f hv hj (hp.trans hf.symm)]
  rw [heq]
  unfold State.tellFather
  rw [if_neg hzero, hfind]
  refine ⟨_, _, rfl, hm.trans (maps_modify j _), fun i u => ?_, fun u => ?_⟩
  · obtain ⟨hsig, hsigf, hsigt⟩ := sendSig_at sigchld j i (g i u)
    have hu := hg i u
    exact ⟨hsig.pid.trans hu.pid, hsig.pgrp.trans hu.pgrp, hsig.serial.trans hu.serial, hsigf.trans hu.father,
      hsig.blocked.trans hu.blocked, hsig.phase.trans hu.phase, hsig.state.trans hu.state,
      fun htold => hsigt (hu.told htold)⟩
  · simp only [Function.comp, if_pos]
    exact told_sigchld _

/-- It is not: the task releases itself. -/
theorem exited_lost {cur : Nat} {t : Task} (ht : s.task cur = some t) {code : Int}
    (hphase : t.phase = .exiting code)
    (hnone : t.father = 0 ∨ ∀ j f, s.task j = some f → f.pid ≠ t.father) :
    ∃ s₂ g, s.exited cur = s₂.release cur none ∧ Maps g s s₂ ∧ ∀ i u, Exited cur i u (g i u) := by
  obtain ⟨s₂, g, heq, hm, hg⟩ := exited_eq ht hphase
  refine ⟨s₂, g, ?_, hm, hg⟩
  rw [heq]
  unfold State.tellFather
  by_cases hzero : t.father = 0
  · rw [if_pos hzero]
  · rw [if_neg hzero]
    cases hfind : s₂.findTask t.father with
    | none => rfl
    | some i =>
      obtain ⟨u, hu, hp⟩ := findTask_some hfind
      obtain ⟨v, hv, rfl⟩ := hm.some hu
      rw [(hg i v).pid] at hp
      rcases hnone with h | h
      · exact absurd h hzero
      · exact absurd hp (h i v hv)

theorem release_some {i : Nat} {waiter : Option Int} (hs : s.release i waiter = some s') :
    ∃ t, s.task i = some t ∧ 0 < i ∧
      s' = { s with task := Function.update s.task i none, log := s.log ++ [⟨t, waiter⟩] } := by
  unfold State.release at hs
  cases ht : s.task i with
  | none =>
    rw [ht] at hs
    cases hs
  | some t =>
    rw [ht] at hs
    dsimp only at hs
    split at hs
    · rename_i hi
      exact ⟨t, rfl, hi.1, (Option.some.inj hs).symm⟩
    · cases hs

theorem release_other {i j : Nat} {t : Task} (h : Function.update s.task i none j = some t) :
    j ≠ i ∧ s.task j = some t := by
  have hj : j ≠ i := by
    rintro rfl
    rw [Function.update_self] at h
    cases h
  rw [Function.update_of_ne hj] at h
  exact ⟨hj, h⟩

theorem Table.release (h : Table s) {i : Nat} {waiter : Option Int} (hs : s.release i waiter = some s') :
    Table s' := by
  obtain ⟨t, ht, hi, rfl⟩ := release_some hs
  obtain ⟨z, hz, hzero, hlive⟩ := h.idle
  refine ⟨fun j u hu => h.bound j u (release_other hu).2,
    fun j k u v hu hv hp => h.distinct j k u v (release_other hu).2 (release_other hv).2 hp,
    ⟨z, ?_, hzero, hlive⟩, h.lastPid, h.lastPidLt⟩
  show Function.update s.task i none 0 = some z
  rw [Function.update_of_ne (by omega), hz]

theorem Books.release (h : Books s) {i : Nat} {t : Task} (ht : s.task i = some t) (hz : t.state = .zombie)
    (hs : s.release i (some t.father) = some s') : Books s' := by
  obtain ⟨u, hu, -, rfl⟩ := release_some hs
  rw [ht] at hu
  cases hu
  have hlog : ∀ r, r ∈ s.log ++ [⟨t, some t.father⟩] → r ∈ s.log ∨ r = ⟨t, some t.father⟩ := by
    intro r hr
    simpa using hr
  refine ⟨?_, fun r hr => ?_, fun r hr j v hv => ?_, fun j k v w hv hw hk => ?_, fun j v hv => ?_,
    fun k hk => ?_⟩
  · show ((s.log ++ [(⟨t, some t.father⟩ : Release)]).map fun r : Release => r.task.serial).Nodup
    rw [List.map_append, List.nodup_append]
    refine ⟨h.nodup, by simp, fun a ha b hb => ?_⟩
    obtain ⟨r, hr, rfl⟩ := List.mem_map.mp ha
    obtain rfl : b = t.serial := by simpa using hb
    exact Ne.symm (h.gone r hr i t ht)
  · rcases hlog r hr with hr | rfl
    · exact h.log r hr
    · exact ⟨hz, rfl, h.born i t ht⟩
  · obtain ⟨hj, hv⟩ := release_other hv
    rcases hlog r hr with hr | rfl
    · exact h.gone r hr j v hv
    · exact fun hk => hj (h.serial j i v t hv ht hk)
  · exact h.serial j k v w (release_other hv).2 (release_other hw).2 hk
  · exact h.born j v (release_other hv).2
  · rcases h.all k hk with ⟨r, hr, hk⟩ | ⟨j, v, hv, hk⟩
    · exact Or.inl ⟨r, List.mem_append_left _ hr, hk⟩
    · by_cases hj : j = i
      · rw [hj, ht] at hv
        cases hv
        exact Or.inl ⟨_, List.mem_append_right _ (List.mem_singleton_self _), hk⟩
      · exact Or.inr ⟨j, v, (Function.update_of_ne hj ..).trans hv, hk⟩

/-- A zombie has no children. -/
theorem Family.release (h : Family s) {i : Nat} {t : Task} {waiter : Option Int} (ht : s.task i = some t)
    (hz : t.state = .zombie) (hs : s.release i waiter = some s') : Family s' := by
  obtain ⟨u, hu, -, rfl⟩ := release_some hs
  have hkeep : ∀ j v, s.task j = some v → v.Alive → Function.update s.task i none j = some v := by
    intro j v hv hlive
    have hj : j ≠ i := by
      rintro rfl
      rw [ht] at hv
      cases hv
      exact hlive.1 hz
    rw [Function.update_of_ne hj, hv]
  refine ⟨?_, fun j v hj hv => ?_⟩
  · rcases h.init with ⟨hborn, hnone⟩ | ⟨v, hv, hp, hlive⟩
    · refine Or.inl ⟨hborn, fun j hj => ?_⟩
      show Function.update s.task i none j = none
      by_cases hji : j = i
      · rw [hji, Function.update_self]
      · rw [Function.update_of_ne hji, hnone j hj]
    · exact Or.inr ⟨v, hkeep 1 v hv hlive, hp, hlive⟩
  · obtain ⟨k, w, hk, hw, hp, hlive⟩ := h.father j v hj (release_other hv).2
    exact ⟨k, w, hk, hkeep k w hw hlive, hp, hlive⟩

/-! ## `sys_waitpid` -/

theorem waitsFor_father {me t : Task} {pid : Int} (h : me.waitsFor t pid = true) : t.father = me.pid := by
  by_contra hne
  unfold Task.waitsFor at h
  rw [if_pos hne] at h
  cases h

theorem scan_zombie {cur i n : Nat} {me : Task} {pid : Int} {untraced flag : Bool}
    (h : s.scan cur me pid untraced n flag = .zombie i) :
    0 < i ∧ i ≤ n ∧ i ≠ cur ∧ ∃ t, s.task i = some t ∧ me.waitsFor t pid = true ∧ t.state = .zombie := by
  induction n generalizing flag with
  | zero => cases h
  | succ n ih =>
    have hrest : ∀ flag, s.scan cur me pid untraced n flag = .zombie i → 0 < i ∧ i ≤ n + 1 ∧ i ≠ cur ∧
        ∃ t, s.task i = some t ∧ me.waitsFor t pid = true ∧ t.state = .zombie := by
      intro flag hscan
      obtain ⟨h₀, h₁, hrest⟩ := ih hscan
      exact ⟨h₀, Nat.le_succ_of_le h₁, hrest⟩
    unfold State.scan at h
    split at h
    · exact hrest _ h
    · rename_i t ht
      split at h
      · exact hrest _ h
      · rename_i hno
        rw [not_or, not_not] at hno
        split at h
        · split at h
          · cases h
          · exact hrest _ h
        · rename_i hz
          cases h
          exact ⟨Nat.succ_pos n, Nat.le_refl _, hno.1, t, ht, hno.2, hz⟩
        · exact hrest _ h

theorem scan_nothing {cur n : Nat} {me : Task} {pid : Int} {untraced flag flag' : Bool}
    (h : s.scan cur me pid untraced n flag = .nothing flag') (i : Nat) (t : Task) (h₀ : 0 < i) (h₁ : i ≤ n)
    (hi : i ≠ cur) (ht : s.task i = some t) (hw : me.waitsFor t pid = true) : t.state ≠ .zombie := by
  induction n generalizing flag with
  | zero => omega
  | succ n ih =>
    unfold State.scan at h
    by_cases hin : i = n + 1
    · subst hin
      rw [ht] at h
      dsimp only at h
      rw [if_neg (by rw [not_or, not_not]; exact ⟨hi, hw⟩)] at h
      intro hz
      rw [hz] at h
      cases h
    · have hle : i ≤ n := by omega
      split at h
      · exact ih h hle
      · split at h
        · exact ih h hle
        · split at h
          · split at h
            · cases h
            · exact ih h hle
          · cases h
          · exact ih h hle

/-- It returns; or a zombie is released; or there is none, and the task sleeps. -/
theorem waitpid_spec {cur : Nat} {pid : Int} {nohang untraced : Bool} {res : Option Int}
    (hs : s.waitpid cur pid nohang untraced = some (s', res)) : ∃ me, s.task cur = some me ∧
      (s' = s.setPhase cur .user ∨
      (∃ i t, i ≠ cur ∧ s.task i = some t ∧ me.waitsFor t pid = true ∧ t.state = .zombie ∧
        (s.setPhase cur .user).release i (some me.pid) = some s') ∨
      (nohang = false ∧
        s' = s.modify cur (fun t => { t with state := .interruptible, phase := .waiting pid untraced }) ∧
        ∀ i t, 0 < i → i < nrTasks → i ≠ cur → s.task i = some t → me.waitsFor t pid = true →
          t.state ≠ .zombie)) := by
  unfold State.waitpid at hs
  cases hme : s.task cur with
  | none =>
    rw [hme] at hs
    cases hs
  | some me =>
    rw [hme] at hs
    dsimp only at hs
    refine ⟨me, rfl, ?_⟩
    split at hs
    · exact Or.inl (congrArg Prod.fst (Option.some.inj hs)).symm
    · rename_i i hscan
      obtain ⟨-, -, hi, t, ht, hw, hz⟩ := scan_zombie hscan
      obtain ⟨s₁, hs₁, heq⟩ := Option.map_eq_some_iff.mp hs
      cases heq
      exact Or.inr (Or.inl ⟨i, t, hi, ht, hw, hz, hs₁⟩)
    · exact Or.inl (congrArg Prod.fst (Option.some.inj hs)).symm
    · rename_i hscan
      split at hs
      · exact Or.inl (congrArg Prod.fst (Option.some.inj hs)).symm
      · rename_i hwait
        refine Or.inr (Or.inr ⟨by simpa using hwait, (congrArg Prod.fst (Option.some.inj hs)).symm, fun i t h₀ h₁ hi ht hw => ?_⟩)
        exact scan_nothing hscan i t h₀ (by omega) hi ht hw

/-- `release` does not panic. -/
theorem waitpid_total {cur : Nat} {me : Task} (hme : s.task cur = some me) (pid : Int)
    (nohang untraced : Bool) : ∃ r, s.waitpid cur pid nohang untraced = some r := by
  unfold State.waitpid
  rw [hme]
  dsimp only
  split
  · exact ⟨_, rfl⟩
  · rename_i i hscan
    obtain ⟨h₀, h₁, -, t, ht, -⟩ := scan_zombie hscan
    have hm : Maps _ s (s.setPhase cur .user) := maps_modify cur _
    unfold State.release
    rw [hm.at ht]
    dsimp only
    rw [if_pos ⟨h₀, Nat.lt_of_le_sub_one (by decide) h₁⟩]
    exact ⟨_, rfl⟩
  · exact ⟨_, rfl⟩
  · split
    · exact ⟨_, rfl⟩
    · exact ⟨_, rfl⟩

/-! ## The process tree -/

/-- The task is still the same, and still alive. -/
structure Steady (t t' : Task) : Prop where
  pid    : t'.pid = t.pid
  pgrp   : t'.pgrp = t.pgrp
  serial : t'.serial = t.serial
  father : t'.father = t.father
  zombie : t'.state = .zombie → t.state = .zombie
  alive  : t.Alive → t'.Alive

theorem Steady.refl (t : Task) : Steady t t := ⟨rfl, rfl, rfl, rfl, id, id⟩

theorem Alive.of_phase {t t' : Task} (hz : t'.state ≠ .zombie) (hp : t'.phase = t.phase) (h : t.Alive) :
    t'.Alive :=
  ⟨hz, fun code => hp ▸ h.2 code⟩

theorem wakeUp_state (t : Sched.Task) (j : Int) :
    (t.wakeUp j).state = t.state ∨ t.state = .interruptible ∧ (t.wakeUp j).state = .running := by
  unfold Sched.Task.wakeUp
  dsimp only
  split_ifs
  · rename_i h
    exact Or.inr ⟨h.2, rfl⟩
  · exact Or.inl rfl
  · rename_i h
    exact Or.inr ⟨h.2, rfl⟩
  · exact Or.inl rfl

theorem steady_wakeUp (t : Task) (j : Int) : Steady t { t with toTask := t.toTask.wakeUp j } := by
  refine ⟨rfl, rfl, rfl, rfl, fun hz => ?_, fun hlive => Alive.of_phase (t := t) ?_ rfl hlive⟩
  · rcases wakeUp_state t.toTask j with h | ⟨-, h⟩
    · exact h.symm.trans hz
    · rw [show (t.toTask.wakeUp j).state = .zombie from hz] at h
      cases h
  · rcases wakeUp_state t.toTask j with h | ⟨-, h⟩
    · exact h ▸ hlive.1
    · rw [h]
      decide

theorem deliver_eq (t : Task) :
    ∃ sa signal blocked, t.deliver.1 = { t with sigaction := sa, signal := signal, blocked := blocked } := by
  unfold Task.deliver
  split
  · exact ⟨t.sigaction, t.signal, t.blocked, rfl⟩
  · dsimp only
    split_ifs <;> exact ⟨_, _, _, rfl⟩

theorem own_eq {t u : Task} (h : Own t u) :
    ∃ sa signal blocked, u = { t with sigaction := sa, signal := signal, blocked := blocked } := by
  cases h with
  | deliver h =>
    obtain ⟨sa, signal, blocked, heq⟩ := deliver_eq t
    rw [h] at heq
    exact ⟨sa, signal, blocked, heq⟩
  | ssetmask newmask => exact ⟨t.sigaction, t.signal, _, rfl⟩
  | signal signum handler =>
    unfold Task.sysSignal
    split_ifs
    · exact ⟨t.sigaction, t.signal, t.blocked, rfl⟩
    · exact ⟨_, t.signal, t.blocked, rfl⟩
  | sigaction signum action =>
    unfold Task.sysSigaction
    dsimp only
    split_ifs
    · exact ⟨t.sigaction, t.signal, t.blocked, rfl⟩
    · exact ⟨_, t.signal, t.blocked, rfl⟩
    · exact ⟨_, t.signal, t.blocked, rfl⟩

/-- The invariant. -/
structure Tree (s : State) : Prop where
  table  : Table s
  books  : Books s
  family : Family s

theorem Tree.steady (h : Tree s) (hm : Maps g s s') (hg : ∀ i t, s.task i = some t → Steady t (g i t)) :
    Tree s' :=
  ⟨h.table.maps hm (fun i t ht => (hg i t ht).pid) fun t ht => (hg 0 t ht).alive,
    h.books.maps hm fun i t ht => (hg i t ht).serial,
    h.family.maps hm (fun i t ht => (hg i t ht).pid) (fun i t ht => (hg i t ht).father)
      (fun t ht => (hg 1 t ht).alive) fun _ _ j u _ hu _ => (hg j u hu).alive⟩

theorem Tree.modify (h : Tree s) (i : Nat) {f : Task → Task} (hf : ∀ t, s.task i = some t → Steady t (f t)) :
    Tree (s.modify i f) := by
  refine h.steady (maps_modify i f) fun j t ht => ?_
  split_ifs with hj
  · exact hf t (hj ▸ ht)
  · exact Steady.refl t

theorem Tree.setTask (h : Tree s) {i : Nat} {t u : Task} (ht : s.task i = some t) (hu : Steady t u) :
    Tree (s.setTask i u) := by
  refine h.steady (maps_setTask u ht) fun j v hv => ?_
  split_ifs with hj
  · rw [hj, ht] at hv
    exact Option.some.inj hv ▸ hu
  · exact Steady.refl v

theorem Tree.exit (h : Tree s) {cur : Nat} (hrun : ∃ t, s.task cur = some t) (h₀ : cur ≠ 0) (h₁ : cur ≠ 1)
    (code : Int) : Tree (s.exit cur code) :=
  ⟨h.table.exit h₀ code, h.books.exit cur code, h.family.exit h.table h₀ h₁ hrun code⟩

/-- A task that exits has a father, which is told. -/
theorem Tree.exiting (h : Tree s) {cur : Nat} {t : Task} (ht : s.task cur = some t) {code : Int}
    (hphase : t.phase = .exiting code) :
    1 < cur ∧ t.father ≠ 0 ∧ ∃ j f, s.task j = some f ∧ f.pid = t.father ∧ f.Alive := by
  obtain ⟨z, hz, hzero, hlive⟩ := h.table.idle
  have h₀ : cur ≠ 0 := by
    rintro rfl
    rw [hz] at ht
    cases ht
    exact hlive.2 code hphase
  have h₁ : cur ≠ 1 := by
    rintro rfl
    rcases h.family.init with ⟨-, hnone⟩ | ⟨u, hu, -, hulive⟩
    · rw [hnone 1 (by decide)] at ht
      cases ht
    · rw [hu] at ht
      cases ht
      exact hulive.2 code hphase
  obtain ⟨j, f, hj, hf, hp, hflive⟩ := h.family.father cur t (by omega) ht
  refine ⟨by omega, fun hfather => ?_, j, f, hf, hp, hflive⟩
  rw [hfather] at hp
  have := h.table.distinct j 0 f z hf hz (hp.trans hzero.symm)
  omega

theorem Tree.exited (h : Tree s) {cur : Nat} (hs : s.exited cur = some s') : Tree s' := by
  cases ht : s.task cur with
  | none =>
    unfold State.exited at hs
    rw [ht] at hs
    cases hs
  | some t =>
    cases hphase : t.phase with
    | exiting code =>
      obtain ⟨hcur, hzero, j, f, hj, hp, -⟩ := h.exiting ht hphase
      obtain ⟨s₁, g, hs₁, hm, hg, -⟩ := exited_told h.table ht hphase hzero hj hp
      rw [hs] at hs₁
      cases hs₁
      have halive : ∀ i u, s.task i = some u → u.Alive → (g i u).Alive := by
        intro i u hu hlive
        have hi : i ≠ cur := by
          rintro rfl
          rw [ht] at hu
          cases hu
          exact hlive.2 code hphase
        refine Alive.of_phase ?_ (hg i u).phase hlive
        rw [(hg i u).state, if_neg hi]
        exact hlive.1
      exact ⟨h.table.maps hm (fun i u _ => (hg i u).pid) (halive 0),
        h.books.maps hm fun i u _ => (hg i u).serial,
        h.family.maps hm (fun i u _ => (hg i u).pid) (fun i u _ => (hg i u).father) (halive 1)
          fun _ _ k u _ hu _ => halive k u hu⟩
    | user =>
      unfold State.exited at hs
      rw [ht] at hs
      dsimp only at hs
      rw [hphase] at hs
      cases hs
    | waiting pid untraced =>
      unfold State.exited at hs
      rw [ht] at hs
      dsimp only at hs
      rw [hphase] at hs
      cases hs

theorem steady_user {t : Task} : Steady t { t with phase := .user } :=
  ⟨rfl, rfl, rfl, rfl, id, fun h => ⟨h.1, fun _ => Phase.noConfusion⟩⟩

theorem steady_wait {t : Task} (pid : Int) (untraced : Bool) :
    Steady t { t with state := .interruptible, phase := .waiting pid untraced } :=
  ⟨rfl, rfl, rfl, rfl, fun h => TaskState.noConfusion h,
    fun _ => ⟨TaskState.noConfusion, fun _ => Phase.noConfusion⟩⟩

theorem Tree.waitpid (h : Tree s) {cur : Nat} {pid : Int} {nohang untraced : Bool} {res : Option Int}
    (hs : s.waitpid cur pid nohang untraced = some (s', res)) : Tree s' := by
  obtain ⟨me, hme, rfl | ⟨i, t, hi, ht, hw, hz, hrel⟩ | ⟨-, rfl, -⟩⟩ := waitpid_spec hs
  · exact h.modify cur fun _ _ => steady_user
  · have h₁ : Tree (s.setPhase cur .user) := h.modify cur fun _ _ => steady_user
    have ht₁ : (s.setPhase cur .user).task i = some t := by
      have hm : Maps _ s (s.setPhase cur .user) := maps_modify cur _
      rw [hm.at ht, if_neg hi]
      rfl
    rw [← waitsFor_father hw] at hrel
    exact ⟨h₁.table.release hrel, h₁.books.release ht₁ hz hrel, h₁.family.release ht₁ hz hrel⟩
  · exact h.modify cur fun _ _ => steady_wait pid untraced

theorem Tree.resume (h : Tree s) {cur : Nat} {res : Option Int} (hs : s.resume cur = some (s', res)) :
    Tree s' := by
  unfold State.resume at hs
  split at hs
  · cases hs
  · split at hs
    · dsimp only at hs
      have h₁ : Tree (s.modify cur (·.clearSig sigchld)) :=
        h.modify cur fun _ _ => ⟨rfl, rfl, rfl, rfl, id, id⟩
      split at hs
      · exact h₁.waitpid hs
      · cases hs
        exact h₁.modify cur fun _ _ => steady_user
    · cases hs

theorem tree_step (h : Tree s) (hs : Step treeRules s s') : Tree s' := by
  cases hs with
  | fork cur n pages hrun hr hs =>
    exact ⟨h.table.fork hs, h.books.fork h.table hs, h.family.fork h.table h.books hrun hr hs⟩
  | exit cur code hrun h₀ hr => exact h.exit (hrun.imp fun _ hu => hu.1) h₀ hr code
  | exited cur hs _ => exact h.exited hs
  | waitpid cur pid nohang untraced res _ _ _ hs => exact h.waitpid hs
  | resume cur pid untraced res _ _ hs => exact h.resume hs
  | own cur ht _ hown =>
    obtain ⟨sa, signal, blocked, rfl⟩ := own_eq hown
    exact h.setTask ht ⟨rfl, rfl, rfl, rfl, id, id⟩
  | @killed cur t u code ht hrun hdel h₀ hr =>
    obtain ⟨sa, signal, blocked, heq⟩ := deliver_eq t
    rw [hdel] at heq
    have hu : Steady t u := by
      rw [show u = _ from heq]
      exact ⟨rfl, rfl, rfl, rfl, id, id⟩
    have h₁ : Tree (s.setTask cur u) := h.setTask ht hu
    exact h₁.exit ⟨u, setTask_at s cur u⟩ h₀ hr code
  | raise i sig => exact h.modify i fun _ _ => ⟨rfl, rfl, rfl, rfl, id, id⟩
  | @sleep cur x t ht hrun _ hx =>
    exact h.setTask ht ⟨rfl, rfl, rfl, rfl, fun hz => absurd hz hx, fun hlive => Alive.of_phase (t := t) hx rfl hlive⟩
  | @wake i t ht _ =>
    exact h.setTask ht ⟨rfl, rfl, rfl, rfl, fun hz => TaskState.noConfusion hz,
      fun hlive => Alive.of_phase (t := t) TaskState.noConfusion rfl hlive⟩
  | schedule =>
    refine h.steady (maps_forTasks 1 _) fun i t _ => ?_
    split_ifs
    · exact steady_wakeUp t s.jiffies
    · exact Steady.refl t
  | tick jiffies => exact ⟨⟨h.table.bound, h.table.distinct, h.table.idle, h.table.lastPid, h.table.lastPidLt⟩,
      ⟨h.books.nodup, h.books.log, h.books.gone, h.books.serial, h.books.born, h.books.all⟩,
      ⟨h.family.init, h.family.father⟩⟩

theorem boot_some {i : Nat} {t : Task} (h : boot.task i = some t) : i = 0 ∧ boot.task 0 = some t := by
  by_cases hi : i = 0
  · exact ⟨hi, hi ▸ h⟩
  · unfold boot at h
    dsimp only at h
    rw [if_neg hi] at h
    cases h

theorem table_boot : Table boot := by
  refine ⟨fun i t ht => ?_, fun i j t u ht hu _ => ?_,
    ⟨_, rfl, rfl, TaskState.noConfusion, fun _ => Phase.noConfusion⟩, Int.le_refl _, by decide⟩
  · rw [(boot_some ht).1]
    decide
  · rw [(boot_some ht).1, (boot_some hu).1]

theorem tree_boot : Tree boot := by
  refine ⟨table_boot, ⟨List.nodup_nil, fun _ hr => (by cases hr), fun _ hr => (by cases hr),
    fun i j t u ht hu _ => ?_, fun i t ht => ?_, fun k hk => ?_⟩,
    ⟨Or.inl ⟨rfl, fun i hi => if_neg hi⟩, fun i t hi ht => ?_⟩⟩
  · rw [(boot_some ht).1, (boot_some hu).1]
  · obtain ⟨-, ht⟩ := boot_some ht
    cases ht
    exact Nat.one_pos
  · exact Or.inr ⟨0, _, rfl, by change k < 1 at hk; show 0 = k; omega⟩
  · rw [(boot_some ht).1] at hi
    omega

theorem tree_reach (hrun : Reach treeRules boot s) : Tree s := by
  induction hrun with
  | refl => exact tree_boot
  | tail _ hs ih => exact tree_step ih hs

/-- As long as task 0 forks only task 1, and task 1 does not exit: the fathers of the
others exist and are no zombies; a task that was made is in the table or was released,
once; only zombies are released, by a `sys_waitpid` of their fathers; `tell_father` finds
the father, and `release` does not panic. -/
theorem process_tree (hrun : Reach treeRules boot s) :
    (∀ i t, 1 < i → s.task i = some t → ∃ j u, s.task j = some u ∧ u.pid = t.father ∧ u.state ≠ .zombie) ∧
    (∀ r, r ∈ s.log → r.task.state = .zombie ∧ r.waiter = some r.task.father) ∧
    (s.log.map (·.task.serial)).Nodup ∧
    (∀ k, k < s.born → ((∃ i t, s.task i = some t ∧ t.serial = k) ↔ ¬ ∃ r, r ∈ s.log ∧ r.task.serial = k)) ∧
    (∀ cur t code, s.task cur = some t → t.phase = .exiting code →
      ∃ s' j f, s.exited cur = some s' ∧ s'.log = s.log ∧ s.task j = some f ∧ f.pid = t.father) ∧
    ∀ cur t pid nohang untraced, s.task cur = some t → ∃ r, s.waitpid cur pid nohang untraced = some r := by
  have h := tree_reach hrun
  refine ⟨fun i t hi ht => ?_, fun r hr => ?_, h.books.nodup, fun k hk => ?_,
    fun cur t code ht hphase => ?_, fun cur t pid nohang untraced ht => waitpid_total ht pid nohang untraced⟩
  · obtain ⟨j, u, -, hu, hp, hlive⟩ := h.family.father i t hi ht
    exact ⟨j, u, hu, hp, hlive.1⟩
  · obtain ⟨hz, hw, -⟩ := h.books.log r hr
    exact ⟨hz, hw⟩
  · constructor
    · rintro ⟨i, t, ht, hk⟩ ⟨r, hr, hk'⟩
      exact h.books.gone r hr i t ht (hk.trans hk'.symm)
    · exact (h.books.all k hk).resolve_left
  · obtain ⟨-, hzero, j, f, hj, hp, -⟩ := h.exiting ht hphase
    obtain ⟨s', g, hs', hm, -⟩ := exited_told h.table ht hphase hzero hj hp
    exact ⟨s', j, f, hs', hm.log, hj, hp⟩

/-! ## Waiting for a child -/

/-- Suspended in `sys_waitpid`. -/
def Task.Waits (t : Task) (pid : Int) (untraced : Bool) : Prop :=
  t.phase = .waiting pid untraced ∧ t.state = .interruptible

/-- `SIGCHLD` is blocked. -/
def Task.Deaf (t : Task) : Prop := t.blocked.getLsbD (sigchld - 1) = true

/-- A task that waits does not block `SIGCHLD`, unless it finds a zombie at once; and task 1
has the pid 1, also after the pids have wrapped round. -/
def waitRules : Rules where
  fork s _ := ∀ n, s.findPid n s.lastPid = some 1 → s.task 1 = none
  exit _ _ := True
  wait s cur pid := ∀ t, s.task cur = some t →
    (∀ i c, s.task i = some c → t.waitsFor c pid = true → c.state ≠ .zombie) → ¬ t.Deaf

/-- The invariant: who waits has been told of every child that is a zombie. -/
structure Watch (s : State) : Prop where
  table : Table s
  one   : ∀ i t, s.task i = some t → t.pid = 1 → i = 1
  idle  : ∀ t, s.task 0 = some t → ∀ pid untraced, t.phase ≠ .waiting pid untraced
  hears : ∀ i t pid untraced, s.task i = some t → t.Waits pid untraced → ¬ t.Deaf
  watch : ∀ i t pid untraced, s.task i = some t → t.Waits pid untraced →
    ∀ j c, s.task j = some c → c.state = .zombie → t.waitsFor c pid = true → t.Told

theorem waitsFor_congr {me me' t t' : Task} (pid : Int) (h₁ : me'.pid = me.pid) (h₂ : me'.pgrp = me.pgrp)
    (h₃ : t'.father = t.father) (h₄ : t'.pid = t.pid) (h₅ : t'.pgrp = t.pgrp) :
    me'.waitsFor t' pid = me.waitsFor t pid := by
  unfold Task.waitsFor
  rw [h₁, h₂, h₃, h₄, h₅]

/-- The task is the same, and if it waits it did and has heard as much. -/
structure Keeps (t t' : Task) : Prop extends Steady t t' where
  idle  : (∀ pid untraced, t.phase ≠ .waiting pid untraced) → ∀ pid untraced, t'.phase ≠ .waiting pid untraced
  waits : ∀ pid untraced, t'.Waits pid untraced → t.Waits pid untraced ∧ (t'.Deaf → t.Deaf) ∧ (t.Told → t'.Told)

theorem Keeps.refl (t : Task) : Keeps t t :=
  ⟨Steady.refl t, id, fun _ _ h => ⟨h, id, id⟩⟩

theorem Watch.keeps (h : Watch s) (hm : Maps g s s') (hg : ∀ i t, s.task i = some t → Keeps t (g i t)) :
    Watch s' := by
  refine ⟨h.table.maps hm (fun i t ht => (hg i t ht).pid) fun t ht => (hg 0 t ht).alive,
    fun i u hu hp => ?_, fun u hu => ?_, fun i u pid untraced hu hw => ?_,
    fun i u pid untraced hu hw j d hd hz hwf => ?_⟩
  · obtain ⟨t, ht, rfl⟩ := hm.some hu
    exact h.one i t ht ((hg i t ht).pid.symm.trans hp)
  · obtain ⟨t, ht, rfl⟩ := hm.some hu
    exact (hg 0 t ht).idle (h.idle t ht)
  · obtain ⟨t, ht, rfl⟩ := hm.some hu
    obtain ⟨hwait, hdeaf, -⟩ := (hg i t ht).waits pid untraced hw
    exact fun hd => h.hears i t pid untraced ht hwait (hdeaf hd)
  · obtain ⟨t, ht, rfl⟩ := hm.some hu
    obtain ⟨c, hc, rfl⟩ := hm.some hd
    obtain ⟨hwait, -, htold⟩ := (hg i t ht).waits pid untraced hw
    have hk := hg i t ht
    have hkc := hg j c hc
    rw [waitsFor_congr pid hk.pid hk.pgrp hkc.father hkc.pid hkc.pgrp] at hwf
    exact htold (h.watch i t pid untraced ht hwait j c hc (hkc.zombie hz) hwf)

theorem Watch.modify (h : Watch s) (i : Nat) {f : Task → Task} (hf : ∀ t, s.task i = some t → Keeps t (f t)) :
    Watch (s.modify i f) := by
  refine h.keeps (maps_modify i f) fun j t ht => ?_
  split_ifs with hj
  · exact hf t (hj ▸ ht)
  · exact Keeps.refl t

theorem Watch.setTask (h : Watch s) {i : Nat} {t u : Task} (ht : s.task i = some t) (hu : Keeps t u) :
    Watch (s.setTask i u) := by
  refine h.keeps (maps_setTask u ht) fun j v hv => ?_
  split_ifs with hj
  · rw [hj, ht] at hv
    exact Option.some.inj hv ▸ hu
  · exact Keeps.refl v

theorem Watch.release (h : Watch s) {i : Nat} {waiter : Option Int} (hs : s.release i waiter = some s') :
    Watch s' := by
  obtain ⟨t, ht, hi, rfl⟩ := release_some hs
  exact ⟨h.table.release hs, fun j u hu => h.one j u (release_other hu).2,
    fun u hu => h.idle u (release_other hu).2,
    fun j u pid untraced hu => h.hears j u pid untraced (release_other hu).2,
    fun j u pid untraced hu hw k c hc => h.watch j u pid untraced (release_other hu).2 hw k c (release_other hc).2⟩

theorem Watch.fork (h : Watch s) {cur n : Nat} {pages : Bool} (hr : waitRules.fork s cur)
    (hs : s.fork cur n pages = some s') : Watch s' := by
  have htable := h.table.fork hs
  obtain ⟨p, hp, -, -, -, rfl | ⟨nr, t, hnr, hcur, rfl⟩⟩ := fork_spec h.table hs
  · exact ⟨htable, h.one, h.idle, h.hears, h.watch⟩
  · have hwaits : ∀ i u pid untraced, (s.setTask nr (t.fork p s.born)).task i = some u →
        u.phase = .waiting pid untraced → s.task i = some u := by
      intro i u pid untraced hu hphase
      rcases setTask_some hu with ⟨-, rfl⟩ | ⟨-, hu₀⟩
      · cases hphase
      · exact hu₀
    refine ⟨htable, fun i u hu hone => ?_, fun u hu pid untraced hphase => ?_,
      fun i u pid untraced hu hw => h.hears i u pid untraced (hwaits i u pid untraced hu hw.1) hw,
      fun i u pid untraced hu hw j c hc hz hwf => ?_⟩
    · rcases setTask_some hu with ⟨rfl, rfl⟩ | ⟨-, hu₀⟩
      · obtain rfl : p = 1 := hone
        rw [findEmpty_first (hr n hp)] at hnr
        exact (Option.some.inj hnr).symm
      · exact h.one i u hu₀ hone
    · exact h.idle u (hwaits 0 u pid untraced hu hphase) pid untraced hphase
    · rcases setTask_some hc with ⟨-, rfl⟩ | ⟨-, hc₀⟩
      · cases hz
      · exact h.watch i u pid untraced (hwaits i u pid untraced hu hw.1) hw j c hc₀ hz hwf

theorem orphans_of {pid : Int} {j : Nat} {c : Task} (hj : j < nrTasks) (hc : s.task j = some c)
    (hf : c.father = pid) (hz : c.state = .zombie) : s.orphans pid = true := by
  unfold State.orphans
  rw [List.any_eq_true]
  refine ⟨j, List.mem_range.mpr hj, ?_⟩
  rw [hc]
  simp [hf, hz]

/-- Children that are zombies already go to task 1, which is told. -/
theorem Watch.exit (h : Watch s) {cur : Nat} (h₀ : cur ≠ 0) (code : Int) : Watch (s.exit cur code) := by
  have htable := h.table.exit h₀ code
  cases ht : s.task cur with
  | none =>
    unfold State.exit
    rw [ht]
    exact h
  | some t₀ =>
    obtain ⟨g, hm, hg⟩ := exit_maps ht code
    have hphase : ∀ i t pid untraced, (g i t).phase = .waiting pid untraced → t.phase = .waiting pid untraced := by
      intro i t pid untraced hw
      rw [(hg i t).phase] at hw
      split at hw
      · cases hw
      · exact hw
    have hwait : ∀ i t pid untraced, (g i t).Waits pid untraced → t.Waits pid untraced := by
      intro i t pid untraced hw
      exact ⟨hphase i t pid untraced hw.1, (hg i t).state ▸ hw.2⟩
    refine ⟨htable, fun i u hu hp => ?_, fun u hu pid untraced hw => ?_, fun i u pid untraced hu hw => ?_,
      fun i u pid untraced hu hw j d hd hz hwf => ?_⟩
    · obtain ⟨t, ht', rfl⟩ := hm.some hu
      exact h.one i t ht' ((hg i t).pid.symm.trans hp)
    · obtain ⟨t, ht', rfl⟩ := hm.some hu
      exact h.idle t ht' pid untraced (hphase 0 t pid untraced hw)
    · obtain ⟨t, ht', rfl⟩ := hm.some hu
      unfold Task.Deaf
      rw [(hg i t).blocked]
      exact h.hears i t pid untraced ht' (hwait i t pid untraced hw)
    · obtain ⟨t, ht', rfl⟩ := hm.some hu
      obtain ⟨c, hc, rfl⟩ := hm.some hd
      have hzc : c.state = .zombie := (hg j c).state ▸ hz
      by_cases hchild : c.father = t₀.pid
      · have hj := h.table.bound j c hc
        have hone : t.pid = 1 := by
          have hf := waitsFor_father hwf
          rw [(hg j c).father, if_pos ⟨hchild, hj⟩, (hg i t).pid] at hf
          exact hf.symm
        exact (hg i t).orphans (h.one i t ht' hone) (orphans_of hj hc hchild hzc)
      · have hf : (g j c).father = c.father := by
          rw [(hg j c).father, if_neg fun hand => hchild hand.1]
        rw [waitsFor_congr pid (hg i t).pid (hg i t).pgrp hf (hg j c).pid (hg j c).pgrp] at hwf
        exact (hg i t).told (h.watch i t pid untraced ht' (hwait i t pid untraced hw) j c hc hzc hwf)

/-- The task that is a zombie now has told its father. -/
theorem Watch.exited_maps (h : Watch s) {cur : Nat} {t₀ : Task} (hcur : s.task cur = some t₀) {code : Int}
    (hphase : t₀.phase = .exiting code) (hm : Maps g s s') (hg : ∀ i u, Exited cur i u (g i u))
    (hnew : ∀ i t pid untraced, s.task i = some t → t.Waits pid untraced → t.pid = t₀.father → (g i t).Told) :
    Watch s' := by
  have hne : ∀ t, s.task cur = some t → ∀ pid untraced, t.phase ≠ .waiting pid untraced := by
    intro t ht pid untraced hw
    rw [hcur] at ht
    cases ht
    rw [hphase] at hw
    cases hw
  have hwait : ∀ i t pid untraced, s.task i = some t → (g i t).Waits pid untraced → t.Waits pid untraced := by
    intro i t pid untraced ht hw
    have hp : t.phase = .waiting pid untraced := (hg i t).phase ▸ hw.1
    have hi : i ≠ cur := by
      rintro rfl
      exact hne t ht pid untraced hp
    have hstate := hw.2
    rw [(hg i t).state, if_neg hi] at hstate
    exact ⟨hp, hstate⟩
  obtain ⟨z, hz, -, hlive⟩ := h.table.idle
  have h₀ : (0 : Nat) ≠ cur := by
    rintro rfl
    rw [hcur] at hz
    cases hz
    exact hlive.2 code hphase
  refine ⟨h.table.maps hm (fun i t _ => (hg i t).pid) fun t _ hlive => ?_, fun i u hu hp => ?_,
    fun u hu pid untraced hw => ?_, fun i u pid untraced hu hw => ?_,
    fun i u pid untraced hu hw j d hd hzd hwf => ?_⟩
  · refine Alive.of_phase (t := t) ?_ (hg 0 t).phase hlive
    rw [(hg 0 t).state, if_neg h₀]
    exact hlive.1
  · obtain ⟨t, ht, rfl⟩ := hm.some hu
    exact h.one i t ht ((hg i t).pid.symm.trans hp)
  · obtain ⟨t, ht, rfl⟩ := hm.some hu
    exact h.idle t ht pid untraced ((hg 0 t).phase ▸ hw)
  · obtain ⟨t, ht, rfl⟩ := hm.some hu
    unfold Task.Deaf
    rw [(hg i t).blocked]
    exact h.hears i t pid untraced ht (hwait i t pid untraced ht hw)
  · obtain ⟨t, ht, rfl⟩ := hm.some hu
    obtain ⟨c, hc, rfl⟩ := hm.some hd
    have hw' := hwait i t pid untraced ht hw
    rw [waitsFor_congr pid (hg i t).pid (hg i t).pgrp (hg j c).father (hg j c).pid (hg j c).pgrp] at hwf
    by_cases hj : j = cur
    · rw [hj, hcur] at hc
      cases hc
      exact hnew i t pid untraced ht hw' (waitsFor_father hwf).symm
    · rw [(hg j c).state, if_neg hj] at hzd
      exact (hg i t).told (h.watch i t pid untraced ht hw' j c hc hzd hwf)

theorem exited_some {cur : Nat} (hs : s.exited cur = some s') :
    ∃ t code, s.task cur = some t ∧ t.phase = .exiting code := by
  unfold State.exited at hs
  split at hs
  · cases hs
  · rename_i t ht
    split at hs
    · rename_i code hphase
      exact ⟨t, code, ht, hphase⟩
    · cases hs

theorem Watch.exited (h : Watch s) {cur : Nat} (hs : s.exited cur = some s') : Watch s' := by
  obtain ⟨t₀, code, hcur, hphase⟩ := exited_some hs
  by_cases hfound : t₀.father ≠ 0 ∧ ∃ j f, s.task j = some f ∧ f.pid = t₀.father
  · obtain ⟨hzero, j, f, hj, hf⟩ := hfound
    obtain ⟨s₁, g, hs₁, hm, hg, htold⟩ := exited_told h.table hcur hphase hzero hj hf
    rw [hs] at hs₁
    cases hs₁
    refine h.exited_maps hcur hphase hm hg fun i t pid untraced ht _ hp => ?_
    rw [h.table.distinct i j t f ht hj (hp.trans hf.symm)]
    exact htold t
  · have hnone : t₀.father = 0 ∨ ∀ j f, s.task j = some f → f.pid ≠ t₀.father := by
      by_cases hzero : t₀.father = 0
      · exact Or.inl hzero
      · exact Or.inr fun j f hj hf => hfound ⟨hzero, j, f, hj, hf⟩
    obtain ⟨s₂, g, heq, hm, hg⟩ := exited_lost hcur hphase hnone
    rw [heq] at hs
    have h₂ : Watch s₂ := by
      refine h.exited_maps hcur hphase hm hg fun i t pid untraced ht hw hp => ?_
      -- nobody waits for it
      rcases hnone with hzero | hnone
      · obtain ⟨z, hz, hzpid, -⟩ := h.table.idle
        obtain rfl := h.table.distinct i 0 t z ht hz (by rw [hp, hzero, hzpid])
        exact absurd hw.1 (h.idle t ht pid untraced)
      · exact absurd hp (hnone i t ht)
    exact h₂.release hs

theorem keeps_user {t : Task} : Keeps t { t with phase := .user } :=
  ⟨steady_user, fun _ _ _ => Phase.noConfusion, fun _ _ hw => Phase.noConfusion hw.1⟩

/-- A task that runs does not wait. -/
theorem keeps_running {t t' : Task} (h : Steady t t') (hrun : t'.state = .running) (hphase : t'.phase = t.phase) :
    Keeps t t' := by
  refine ⟨h, fun hidle => hphase ▸ hidle, fun pid untraced hw => ?_⟩
  have hstate := hw.2
  rw [hrun] at hstate
  cases hstate

/-- A task goes to sleep: there is no zombie among its children. -/
theorem Watch.sleeps (h : Watch s) {cur : Nat} {me : Task} (hme : s.task cur = some me) (h₀ : cur ≠ 0)
    {pid : Int} {untraced : Bool} (hdeaf : ¬ me.Deaf)
    (hnone : ∀ i c, s.task i = some c → me.waitsFor c pid = true → c.state ≠ .zombie) :
    Watch (s.modify cur fun t => { t with state := .interruptible, phase := .waiting pid untraced }) := by
  have hm : Maps _ s (s.modify cur fun t => { t with state := .interruptible, phase := .waiting pid untraced }) :=
    maps_modify cur _
  have htask : ∀ i u, (s.modify cur fun t =>
      { t with state := .interruptible, phase := .waiting pid untraced }).task i = some u →
      i = cur ∧ u = { me with state := .interruptible, phase := .waiting pid untraced } ∨
      i ≠ cur ∧ s.task i = some u := by
    intro i u hu
    rw [hm.task] at hu
    by_cases hi : i = cur
    · rw [hi, hme, if_pos rfl] at hu
      exact Or.inl ⟨hi, (Option.some.inj hu).symm⟩
    · rw [if_neg hi, Option.map_id_fun, id] at hu
      exact Or.inr ⟨hi, hu⟩
  refine ⟨h.table.maps hm (fun i t _ => ?_) fun t _ hlive => ?_, fun i u hu hp => ?_, fun u hu => ?_,
    fun i u pid' untraced' hu hw => ?_, fun i u pid' untraced' hu hw j d hd hz hwf => ?_⟩
  · split_ifs <;> rfl
  · rw [if_neg (Ne.symm h₀)]
    exact hlive
  · rcases htask i u hu with ⟨rfl, rfl⟩ | ⟨-, hu₀⟩
    · exact h.one i me hme hp
    · exact h.one i u hu₀ hp
  · rcases htask 0 u hu with ⟨hi, -⟩ | ⟨-, hu₀⟩
    · exact absurd hi.symm h₀
    · exact h.idle u hu₀
  · rcases htask i u hu with ⟨-, rfl⟩ | ⟨-, hu₀⟩
    · exact hdeaf
    · exact h.hears i u pid' untraced' hu₀ hw
  · rcases htask j d hd with ⟨-, rfl⟩ | ⟨-, hd₀⟩
    · cases hz
    · rcases htask i u hu with ⟨-, rfl⟩ | ⟨-, hu₀⟩
      · cases hw.1
        exact absurd hz (hnone j d hd₀ hwf)
      · exact h.watch i u pid' untraced' hu₀ hw j d hd₀ hz hwf

theorem Watch.waitpid (h : Watch s) {cur : Nat} (h₀ : cur ≠ 0) {me : Task} (hme : s.task cur = some me)
    (hlive : me.state ≠ .zombie) {pid : Int} {nohang untraced : Bool} {res : Option Int}
    (hr : nohang = false → waitRules.wait s cur pid)
    (hs : s.waitpid cur pid nohang untraced = some (s', res)) : Watch s' := by
  obtain ⟨me', hme', rfl | ⟨i, t, -, -, -, -, hrel⟩ | ⟨hhang, rfl, hnone⟩⟩ := waitpid_spec hs
  · exact h.modify cur fun _ _ => keeps_user
  · have h₁ : Watch (s.setPhase cur .user) := h.modify cur fun _ _ => keeps_user
    exact h₁.release hrel
  · rw [hme] at hme'
    cases hme'
    have hall : ∀ i c, s.task i = some c → me.waitsFor c pid = true → c.state ≠ .zombie := by
      intro i c hc hw
      by_cases hi : i = cur
      · rw [hi, hme] at hc
        cases hc
        exact hlive
      · by_cases hzero : i = 0
        · obtain ⟨z, hz, -, hzlive⟩ := h.table.idle
          rw [hzero, hz] at hc
          cases hc
          exact hzlive.1
        · exact hnone i c (Nat.pos_of_ne_zero hzero) (h.table.bound i c hc) hi hc hw
    exact h.sleeps hme h₀ (hr hhang me hme hall) hall

theorem Watch.resume (h : Watch s) {cur : Nat} {pid : Int} {untraced : Bool} {res : Option Int}
    (hrun : ∃ t, s.task cur = some t ∧ t.state = .running ∧ t.phase = .waiting pid untraced)
    (hr : waitRules.wait s cur pid) (hs : s.resume cur = some (s', res)) : Watch s' := by
  obtain ⟨me, hme, hstate, hphase⟩ := hrun
  have h₀ : cur ≠ 0 := by
    rintro rfl
    exact h.idle me hme pid untraced hphase
  unfold State.resume at hs
  rw [hme] at hs
  dsimp only at hs
  rw [hphase] at hs
  dsimp only at hs
  have hkeep : ∀ t, s.task cur = some t → Keeps t (t.clearSig sigchld) := by
    intro t ht
    rw [hme] at ht
    cases ht
    exact keeps_running ⟨rfl, rfl, rfl, rfl, id, id⟩ hstate rfl
  have h₁ : Watch (s.modify cur (·.clearSig sigchld)) := h.modify cur hkeep
  have hm : Maps _ s (s.modify cur (·.clearSig sigchld)) := maps_modify cur _
  have hme₁ : (s.modify cur (·.clearSig sigchld)).task cur = some (me.clearSig sigchld) := by
    rw [hm.at hme, if_pos rfl]
  split at hs
  · refine h₁.waitpid h₀ hme₁ ?_ (fun _ t ht hall => ?_) hs
    · show me.state ≠ .zombie
      rw [hstate]
      decide
    · rw [hme₁] at ht
      cases ht
      refine hr me hme fun i c hc hw => ?_
      have hi := hm.at hc
      by_cases hic : i = cur
      · rw [hic, hme] at hc
        cases hc
        rw [hstate]
        decide
      · rw [if_neg hic] at hi
        exact hall i c hi hw
  · cases hs
    exact h₁.modify cur fun _ _ => keeps_user

theorem keeps_wakeUp (t : Task) (j : Int) : Keeps t { t with toTask := t.toTask.wakeUp j } := by
  refine ⟨steady_wakeUp t j, id, fun pid untraced hw => ?_⟩
  have hstate : (t.toTask.wakeUp j).state = .interruptible := hw.2
  have hsignal : (t.toTask.wakeUp j).blocked = t.blocked ∧
      (t.Told → (t.toTask.wakeUp j).signal.getLsbD (sigchld - 1) = true) := by
    unfold Task.Told Sched.Task.wakeUp
    dsimp only
    split_ifs <;> simp +contextual
  have hdeaf : Task.Deaf { t with toTask := t.toTask.wakeUp j } → t.Deaf := by
    unfold Task.Deaf
    rw [hsignal.1]
    exact id
  refine ⟨⟨hw.1, ?_⟩, hdeaf, hsignal.2⟩
  rcases wakeUp_state t.toTask j with heq | ⟨hint, -⟩
  · rw [← heq, hstate]
  · exact hint

theorem Watch.own (h : Watch s) {cur : Nat} {t u : Task} (ht : s.task cur = some t) (hrun : s.Runs cur)
    (hu : ∃ sa signal blocked, u = { t with sigaction := sa, signal := signal, blocked := blocked }) :
    Watch (s.setTask cur u) := by
  obtain ⟨sa, signal, blocked, rfl⟩ := hu
  obtain ⟨v, hv, hstate, -⟩ := hrun
  rw [ht] at hv
  cases hv
  exact h.setTask ht (keeps_running ⟨rfl, rfl, rfl, rfl, id, id⟩ hstate rfl)

theorem watch_step (h : Watch s) (hs : Step waitRules s s') : Watch s' := by
  cases hs with
  | fork cur n pages hrun hr hs => exact h.fork hr hs
  | exit cur code hrun h₀ hr => exact h.exit h₀ code
  | exited cur hs _ => exact h.exited hs
  | waitpid cur pid nohang untraced res hrun h₀ hr hs =>
    obtain ⟨me, hme, hstate, -⟩ := hrun
    exact h.waitpid h₀ hme (by rw [hstate]; decide) hr hs
  | resume cur pid untraced res hrun hr hs => exact h.resume hrun hr hs
  | own cur ht hrun hown => exact h.own ht hrun (own_eq hown)
  | @killed cur t u code ht hrun hdel h₀ hr =>
    have hu := deliver_eq t
    rw [hdel] at hu
    exact (h.own ht hrun hu).exit h₀ code
  | raise i sig =>
    refine h.modify i fun t _ => ⟨⟨rfl, rfl, rfl, rfl, id, id⟩, id, fun pid untraced hw => ?_⟩
    exact ⟨hw, id, told_sendSig sig⟩
  | @sleep cur x t ht hrun hphase hx =>
    refine h.setTask ht ⟨⟨rfl, rfl, rfl, rfl, fun hz => absurd hz hx, fun hlive => Alive.of_phase (t := t) hx rfl hlive⟩,
      id, fun pid untraced hw => ?_⟩
    exact absurd hw.1 (hphase pid untraced)
  | @wake i t ht _ =>
    exact h.setTask ht (keeps_running ⟨rfl, rfl, rfl, rfl, fun hz => TaskState.noConfusion hz,
      fun hlive => Alive.of_phase (t := t) TaskState.noConfusion rfl hlive⟩ rfl rfl)
  | schedule =>
    refine h.keeps (maps_forTasks 1 _) fun i t _ => ?_
    split_ifs
    · exact keeps_wakeUp t s.jiffies
    · exact Keeps.refl t
  | tick jiffies => exact ⟨⟨h.table.bound, h.table.distinct, h.table.idle, h.table.lastPid, h.table.lastPidLt⟩,
      h.one, h.idle, h.hears, h.watch⟩

theorem watch_boot : Watch boot := by
  have hboot : ∀ i t, boot.task i = some t → i = 0 ∧ t.pid = 0 ∧ t.phase = .user := by
    intro i t ht
    obtain ⟨hi, ht⟩ := boot_some ht
    cases ht
    exact ⟨hi, rfl, rfl⟩
  refine ⟨table_boot, fun i t ht hp => ?_, fun t ht pid untraced hw => ?_, fun i t pid untraced ht hw => ?_,
    fun i t pid untraced ht hw => ?_⟩
  · rw [(hboot i t ht).2.1] at hp
    cases hp
  · rw [(hboot 0 t ht).2.2] at hw
    cases hw
  · have hphase := hw.1
    rw [(hboot i t ht).2.2] at hphase
    cases hphase
  · have hphase := hw.1
    rw [(hboot i t ht).2.2] at hphase
    cases hphase

theorem watch_reach (hrun : Reach waitRules boot s) : Watch s := by
  induction hrun with
  | refl => exact watch_boot
  | tail _ hs ih => exact watch_step ih hs

/-- A signal that is not blocked wakes the task. -/
theorem wakeUp_told {t : Task} (j : Int) (htold : t.Told) (hdeaf : ¬ t.Deaf) (hstate : t.state = .interruptible) :
    (t.toTask.wakeUp j).state = .running := by
  have hbit : ∀ signal : BitVec 32, signal.getLsbD (sigchld - 1) = true →
      signal &&& ~~~(Sched.blockable &&& t.blocked) ≠ 0 := by
    intro signal hs hzero
    have hclear := congrArg (fun w : BitVec 32 => w.getLsbD (sigchld - 1)) hzero
    unfold Task.Deaf at hdeaf
    simp only [BitVec.getLsbD_and, BitVec.getLsbD_not, hs, hdeaf] at hclear
    simp [sigchld] at hclear
  unfold Sched.Task.wakeUp
  dsimp only
  split_ifs with halarm hwake hwake
  · rfl
  · exact absurd ⟨hbit _ (by rw [BitVec.getLsbD_or, htold, Bool.true_or]), hstate⟩ hwake
  · rfl
  · exact absurd ⟨hbit _ htold, hstate⟩ hwake

/-- **No father waits for ever.** If tasks that wait do not block `SIGCHLD`: when a child of
one that waits is a zombie, `schedule` makes it runnable, and it can collect the child. -/
theorem child_exit_seen (hrun : Reach waitRules boot s) {i j : Nat} {t c : Task} {pid : Int} {untraced : Bool}
    (ht : s.task i = some t) (hw : t.Waits pid untraced) (hc : s.task j = some c) (hz : c.state = .zombie)
    (hchild : t.waitsFor c pid = true) : ∃ t', s.schedule.task i = some t' ∧ t'.state = .running := by
  have h := watch_reach hrun
  have hi : 1 ≤ i ∧ i < nrTasks := by
    refine ⟨Nat.pos_of_ne_zero ?_, h.table.bound i t ht⟩
    rintro rfl
    exact h.idle t ht pid untraced hw.1
  refine ⟨_, (maps_forTasks 1 _).at ht, ?_⟩
  rw [if_pos hi]
  exact wakeUp_told s.jiffies (h.watch i t pid untraced ht hw j c hc hz hchild)
    (h.hears i t pid untraced ht hw) hw.2

/-! ## Three tasks -/

def State.forked (s : State) (cur : Nat) : State := (s.fork cur 2 true).getD s
def State.zombied (s : State) (cur : Nat) : State := ((s.exit cur 0).exited cur).getD s
def State.waited (s : State) (cur : Nat) : State := ((s.waitpid cur (-1) false false).map (·.1)).getD s

/-- Task 0 forks task 1, and task 1 forks task 2. -/
def family : State := (boot.forked 0).forked 1

def State.status (s : State) (i : Nat) : Option (TaskState × Phase) :=
  (s.task i).map fun t => (t.state, t.phase)

theorem runs_of {i : Nat} (h : s.status i = some (.running, .user)) : s.Runs i := by
  obtain ⟨t, ht, heq⟩ := Option.map_eq_some_iff.mp h
  exact ⟨t, ht, congrArg Prod.fst heq, congrArg Prod.snd heq⟩

theorem eq_getD {α : Type} {o : Option α} (a : α) (h : o.isSome) : o = some (o.getD a) := by
  cases o with
  | none => cases h
  | some b => rfl

theorem reach_forked {r : Rules} (h : Reach r boot s) {cur : Nat} (hrun : s.status cur = some (.running, .user))
    (hr : r.fork s cur) (hs : (s.fork cur 2 true).isSome) : Reach r boot (s.forked cur) :=
  .tail h (.fork cur 2 true (runs_of hrun) hr (eq_getD s hs))

theorem reach_family {r : Rules} (h₀ : r.fork boot 0) (h₁ : r.fork (boot.forked 0) 1) : Reach r boot family :=
  reach_forked (reach_forked .refl rfl h₀ (by decide +kernel)) (by decide +kernel) h₁ (by decide +kernel)

theorem reach_zombied {r : Rules} (h : Reach r boot s) {cur : Nat} (hrun : s.status cur = some (.running, .user))
    (h₀ : cur ≠ 0) (hr : r.exit s cur) (hs : ((s.exit cur 0).exited cur).isSome)
    (hstate : (s.exit cur 0).status cur = some (.running, .exiting 0)) : Reach r boot (s.zombied cur) := by
  obtain ⟨t, ht, heq⟩ := Option.map_eq_some_iff.mp hstate
  exact .tail (.tail h (.exit cur 0 (runs_of hrun) h₀ hr))
    (.exited cur (eq_getD s hs) ⟨t, ht, congrArg Prod.fst heq⟩)

theorem reach_waited {r : Rules} (h : Reach r boot s) {cur : Nat} (hrun : s.status cur = some (.running, .user))
    (h₀ : cur ≠ 0) (hr : r.wait s cur (-1)) (hs : (s.waitpid cur (-1) false false).isSome) :
    Reach r boot (s.waited cur) := by
  refine .tail h (.waitpid cur (-1) false false ((s.waitpid cur (-1) false false).getD (s, none)).2
    (runs_of hrun) h₀ (fun _ => hr) ?_)
  unfold State.waited
  rw [eq_getD (s, none) hs]
  rfl

theorem reach_masked {r : Rules} (h : Reach r boot s) {cur : Nat} (hrun : s.status cur = some (.running, .user))
    (newmask : BitVec 32) : Reach r boot (s.modify cur (·.ssetmask newmask)) := by
  obtain ⟨t, ht, -⟩ := runs_of hrun
  unfold State.modify
  rw [ht]
  exact .tail h (.own cur ht (runs_of hrun) (.ssetmask newmask))

/-- The child of task 1 exits and is waited for. -/
theorem process_tree_three : ((family.zombied 2).waited 1).log.map (·.task.pid) = [2] ∧
    ∀ r, r ∈ ((family.zombied 2).waited 1).log → r.task.state = .zombie ∧ r.waiter = some r.task.father := by
  have hrun : Reach treeRules boot ((family.zombied 2).waited 1) :=
    reach_waited (reach_zombied (reach_family (fun _ => ⟨rfl, rfl⟩) fun h => absurd h (by decide))
      (by decide +kernel) (by decide) (by unfold treeRules; decide) (by decide +kernel) (by decide +kernel))
      (by decide +kernel) (by decide) trivial (by decide +kernel)
  exact ⟨by decide +kernel, (process_tree hrun).2.1⟩

theorem fork_second (n : Nat) (h : (boot.forked 0).findPid n (boot.forked 0).lastPid = some 1) :
    (boot.forked 0).task 1 = none := by
  have hlast : (boot.forked 0).lastPid = 1 := by decide +kernel
  have hfree : (boot.forked 0).findTask (nextPid 1) = none := by decide +kernel
  rw [hlast] at h
  cases n with
  | zero => cases h
  | succ n =>
    unfold State.findPid at h
    rw [hfree] at h
    exact absurd (Option.some.inj h) (by decide)

/-- Two tasks, and the second is a zombie child the first waits for. -/
def State.waitedFor (s : State) (i j : Nat) : Bool :=
  match s.task i, s.task j with
  | some t, some c => t.phase = .waiting (-1) false ∧ t.state = .interruptible ∧ c.state = .zombie ∧
    t.waitsFor c (-1) = true
  | _, _ => false

theorem waitedFor_iff {i j : Nat} (h : s.waitedFor i j = true) :
    ∃ t c, s.task i = some t ∧ s.task j = some c ∧ t.Waits (-1) false ∧ c.state = .zombie ∧
      t.waitsFor c (-1) = true := by
  unfold State.waitedFor at h
  split at h
  · rename_i t c ht hc
    obtain ⟨hphase, hstate, hz, hw⟩ := of_decide_eq_true h
    exact ⟨t, c, ht, hc, ⟨hphase, hstate⟩, hz, hw⟩
  · cases h

/-- Task 1 waits and its child exits. -/
theorem child_exit_seen_three :
    ∃ t, ((family.waited 1).zombied 2).schedule.task 1 = some t ∧ t.state = .running := by
  have hfamily : Reach waitRules boot family := reach_family (fun _ _ => rfl) fork_second
  have hhears : (family.task 1).map (·.blocked) = some 0 := by decide +kernel
  have hwait : Reach waitRules boot (family.waited 1) := by
    refine reach_waited hfamily (by decide +kernel) (by decide) (fun t ht _ hdeaf => ?_) (by decide +kernel)
    rw [ht] at hhears
    have hblocked : t.blocked = 0 := Option.some.inj hhears
    unfold Task.Deaf at hdeaf
    rw [hblocked] at hdeaf
    exact absurd hdeaf (by decide)
  have hrun : Reach waitRules boot ((family.waited 1).zombied 2) :=
    reach_zombied hwait (by decide +kernel) (by decide) trivial (by decide +kernel) (by decide +kernel)
  obtain ⟨t, c, ht, hc, hw, hz, hchild⟩ :=
    waitedFor_iff (s := (family.waited 1).zombied 2) (i := 1) (j := 2) (by decide +kernel)
  exact child_exit_seen hrun ht hw hc hz hchild

/-- Task 1 blocks `SIGCHLD` before it waits. -/
def deaf : State := ((family.modify 1 (·.ssetmask (bit sigchld))).waited 1).zombied 2

/-- Its child is a zombie, and `schedule` leaves it asleep. -/
theorem child_exit_missed : ¬ ∀ s : State, Reach ⟨fun _ _ => True, fun _ _ => True, fun _ _ _ => True⟩ boot s →
    ∀ i j t c pid untraced, s.task i = some t → t.Waits pid untraced → s.task j = some c → c.state = .zombie →
      t.waitsFor c pid = true → ∃ t', s.schedule.task i = some t' ∧ t'.state = .running := by
  intro h
  have hrun : Reach ⟨fun _ _ => True, fun _ _ => True, fun _ _ _ => True⟩ boot deaf :=
    reach_zombied (reach_waited (reach_masked (reach_family trivial trivial) (by decide +kernel) _)
      (by decide +kernel) (by decide) trivial (by decide +kernel)) (by decide +kernel) (by decide) trivial
      (by decide +kernel) (by decide +kernel)
  obtain ⟨t, c, ht, hc, hw, hz, hchild⟩ := waitedFor_iff (s := deaf) (i := 1) (j := 2) (by decide +kernel)
  obtain ⟨t', ht', hawake⟩ := h deaf hrun 1 2 t c (-1) false ht hw hc hz hchild
  have hasleep : (deaf.schedule.task 1).map (·.state) = some .interruptible := by decide +kernel
  rw [ht'] at hasleep
  have hstate : t'.state = .interruptible := Option.some.inj hasleep
  rw [hawake] at hstate
  cases hstate

end Linux011.Kernel.Exit
