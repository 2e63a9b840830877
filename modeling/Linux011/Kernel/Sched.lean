import Mathlib.Logic.Function.Iterate
import Mathlib.Logic.Function.Basic
import Mathlib.Logic.Relation
import Linux011.Kernel.Sleep

/-!
# Time slices

`schedule`, and what changes `counter` and `priority`: `sys_nice`, `do_timer` and
`copy_process`. Both are 32-bit, and nothing bounds a priority from above: a counter may go round,
and its task is then never chosen.

* `Sane` — priorities are positive and counters not negative;
* `loop_spec` — the loop of `schedule` from such a state;
* `never_starved` — the runs in which no counter overflows;
* `nice_starves` — what happens otherwise.
-/

namespace Linux011.Kernel.Sched

open Linux011.Kernel.Sleep (TaskState)

def nrTasks : Nat := 64

/-- The value of a sum as a `long`. -/
def wrap (x : Int) : Int := (x + 2147483648) % 4294967296 - 2147483648

theorem wrap_of_fits {x : Int} (h₁ : -2147483648 ≤ x) (h₂ : x < 2147483648) : wrap x = x := by
  unfold wrap
  omega

theorem wrap_fits (x : Int) : -2147483648 ≤ wrap x ∧ wrap x < 2147483648 := by
  unfold wrap
  omega

structure Task where
  state    : TaskState
  counter  : Int
  priority : Int
  signal   : BitVec 32
  blocked  : BitVec 32
  alarm    : Int
  deriving DecidableEq, Repr

structure State where
  task    : Nat → Option Task
  current : Nat
  jiffies : Int

def sigkill : Nat := 9
def sigstop : Nat := 19
def sigalrm : Nat := 14

def bit (sig : Nat) : BitVec 32 := 1 <<< (sig - 1)

/-- `_BLOCKABLE`. -/
def blockable : BitVec 32 := ~~~(bit sigkill ||| bit sigstop)

/-- The first loop of `schedule`, at one task: the alarm, and a signal wakes it. -/
def Task.wakeUp (t : Task) (jiffies : Int) : Task :=
  let t := if t.alarm ≠ 0 ∧ t.alarm < jiffies then
    { t with signal := t.signal ||| bit sigalrm, alarm := 0 } else t
  if t.signal &&& ~~~(blockable &&& t.blocked) ≠ 0 ∧ t.state = .interruptible then
    { t with state := .running } else t

def Task.recharge (t : Task) : Task := { t with counter := wrap (t.counter / 2 + t.priority) }

/-- The loops over the slots from the last to the second. -/
def State.forTasks (s : State) (f : Task → Task) : State :=
  { s with task := fun i => if 0 < i ∧ i < nrTasks then (s.task i).map f else s.task i }

/-- The selection, from slot `n` down: `c` and `next`. -/
def State.select (s : State) : Nat → Int × Nat → Int × Nat
  | 0, r => r
  | n + 1, r =>
    match s.task (n + 1) with
    | none => s.select n r
    | some t =>
      if t.state = .running ∧ r.1 < t.counter then s.select n (t.counter, n + 1)
      else s.select n r

def State.choice (s : State) : Int × Nat := s.select (nrTasks - 1) (-1, 0)

/-- The `while (1)` of `schedule`, and `switch_to`. Nothing if it takes more rounds. -/
def State.loop (s : State) : Nat → Option State
  | 0 => none
  | n + 1 =>
    if s.choice.1 ≠ 0 then some { s with current := s.choice.2 }
    else (s.forTasks Task.recharge).loop n

def State.wakeSignalled (s : State) : State := s.forTasks (Task.wakeUp · s.jiffies)

def State.schedule (s : State) (n : Nat) : Option State := s.wakeSignalled.loop n

def State.setTask (s : State) (i : Nat) (t : Task) : State :=
  { s with task := Function.update s.task i (some t) }

def Task.nice (t : Task) (increment : Int) : Task :=
  if 0 < wrap (t.priority - increment) then { t with priority := wrap (t.priority - increment) } else t

/-- `sys_nice`. -/
def State.nice (s : State) (increment : Int) : State :=
  match s.task s.current with
  | none => s
  | some t => s.setTask s.current (t.nice increment)

/-- `copy_process`, as far as it concerns the scheduler. -/
def Task.child (t : Task) : Task :=
  { t with state := .running, counter := t.priority, signal := 0, alarm := 0 }

def State.fork (s : State) (nr : Nat) : State :=
  match s.task s.current with
  | none => s
  | some t => s.setTask nr t.child

def Task.tick (t : Task) : Task :=
  if 0 < wrap (t.counter - 1) then { t with counter := wrap (t.counter - 1) }
  else { t with counter := 0 }

/-- A timer interrupt: `jiffies++`, and `do_timer` up to `schedule`. -/
def State.tick (s : State) : State :=
  let s := { s with jiffies := wrap (s.jiffies + 1) }
  match s.task s.current with
  | none => s
  | some t => s.setTask s.current t.tick

/-- The slice of the task is used up. -/
def State.expired (s : State) : Bool :=
  match s.task s.current with
  | none => false
  | some t => decide (wrap (t.counter - 1) ≤ 0)

/-- `do_timer`. -/
def State.doTimer (s : State) (cpl n : Nat) : Option State :=
  if s.expired ∧ cpl ≠ 0 then s.tick.schedule n else some s.tick

/-- After `sched_init`: task 0. -/
def boot : State where
  task i := if i = 0 then some ⟨.running, 15, 15, 0, 0, 0⟩ else none
  current := 0
  jiffies := 0

/-- A task is runnable, and none that is has time left. -/
def Spent (s : State) : Prop :=
  (∃ i t, 0 < i ∧ i < nrTasks ∧ s.task i = some t ∧ t.state = .running) ∧
  ∀ i t, 0 < i → i < nrTasks → s.task i = some t → t.state = .running → t.counter ≤ 0

/-- No counter overflows if `schedule` gives new time slices. -/
def Room (s : State) : Prop :=
  Spent s.wakeSignalled →
    ∀ i t, 0 < i → i < nrTasks → s.task i = some t → t.counter / 2 + t.priority < 2147483648

/-- What tasks and interrupts do. `allow` restricts the states `schedule` is called in. -/
inductive Step (allow : State → Prop) : State → State → Prop
  | fork {s : State} (nr : Nat) (h₀ : 0 < nr) (h₁ : nr < nrTasks) (hfree : s.task nr = none) :
      Step allow s (s.fork nr)
  | schedule {s s' : State} (n : Nat) (hallow : allow s) (hs : s.schedule n = some s') : Step allow s s'
  | timer {s s' : State} (cpl n : Nat) (hallow : s.expired → cpl ≠ 0 → allow s.tick)
      (hs : s.doTimer cpl n = some s') : Step allow s s'
  | nice {s : State} (increment : Int) (h₁ : -2147483648 ≤ increment) (h₂ : increment < 2147483648) :
      Step allow s (s.nice increment)
  /-- A task sleeps, is woken, gets a signal or sets an alarm. -/
  | other {s : State} (i : Nat) (t : Task) (ht : s.task i = some t) (x : TaskState)
      (signal blocked : BitVec 32) (alarm : Int) :
      Step allow s (s.setTask i { t with state := x, signal := signal, blocked := blocked, alarm := alarm })

abbrev Reach (allow : State → Prop) : State → State → Prop := Relation.ReflTransGen (Step allow)

structure Task.Sane (t : Task) : Prop where
  priority   : 1 ≤ t.priority
  priorityLt : t.priority < 2147483648
  counter    : 0 ≤ t.counter
  counterLt  : t.counter < 2147483648

def Sane (s : State) : Prop := ∀ i t, s.task i = some t → t.Sane

variable {s s' : State}

theorem sane_setTask (h : Sane s) (i : Nat) {t : Task} (ht : t.Sane) : Sane (s.setTask i t) := by
  intro j u hu
  change Function.update s.task i (some t) j = some u at hu
  by_cases hji : j = i
  · rw [hji, Function.update_self] at hu
    exact Option.some.inj hu ▸ ht
  · rw [Function.update_of_ne hji] at hu
    exact h j u hu

theorem forTasks_some {f : Task → Task} {i : Nat} {u : Task} (hu : (s.forTasks f).task i = some u) :
    ∃ t, s.task i = some t ∧ (u = f t ∧ 0 < i ∧ i < nrTasks ∨ u = t) := by
  change (if 0 < i ∧ i < nrTasks then (s.task i).map f else s.task i) = some u at hu
  split at hu
  · rename_i hi
    obtain ⟨t, ht, hft⟩ := Option.map_eq_some_iff.mp hu
    exact ⟨t, ht, Or.inl ⟨hft.symm, hi⟩⟩
  · exact ⟨u, hu, Or.inr rfl⟩

@[simp] theorem wakeUp_counter (t : Task) (j : Int) : (t.wakeUp j).counter = t.counter := by
  unfold Task.wakeUp
  dsimp only
  split_ifs <;> rfl

@[simp] theorem wakeUp_priority (t : Task) (j : Int) : (t.wakeUp j).priority = t.priority := by
  unfold Task.wakeUp
  dsimp only
  split_ifs <;> rfl

theorem sane_wakeSignalled (h : Sane s) : Sane s.wakeSignalled := by
  intro i u hu
  obtain ⟨t, ht, ⟨rfl, -⟩ | rfl⟩ := forTasks_some hu
  · have hsane := h i t ht
    exact ⟨by simpa using hsane.priority, by simpa using hsane.priorityLt,
      by simpa using hsane.counter, by simpa using hsane.counterLt⟩
  · exact h i u ht

/-- New time slices that do not overflow. -/
theorem sane_recharge (h : Sane s) (hroom : ∀ i t, 0 < i → i < nrTasks → s.task i = some t →
    t.counter / 2 + t.priority < 2147483648) : Sane (s.forTasks Task.recharge) := by
  intro i u hu
  obtain ⟨t, ht, ⟨rfl, h₀, h₁⟩ | rfl⟩ := forTasks_some hu
  · have hsane := h i t ht
    have hp := hsane.priority
    have hc := hsane.counter
    have hfit := hroom i t h₀ h₁ ht
    have hwrap : wrap (t.counter / 2 + t.priority) = t.counter / 2 + t.priority :=
      wrap_of_fits (by omega) hfit
    refine ⟨hp, hsane.priorityLt, ?_, ?_⟩
    · show 0 ≤ wrap (t.counter / 2 + t.priority)
      omega
    · exact (wrap_fits _).2
  · exact h i u ht

/-- The greatest counter of the tasks that are runnable, and whose it is. -/
theorem select_spec (n : Nat) (r : Int × Nat) :
    r.1 ≤ (s.select n r).1 ∧
    (∀ i t, 0 < i → i ≤ n → s.task i = some t → t.state = .running → t.counter ≤ (s.select n r).1) ∧
    (s.select n r = r ∨ 0 < (s.select n r).2 ∧ (s.select n r).2 ≤ n ∧ ∃ t, s.task (s.select n r).2 = some t ∧
      t.state = .running ∧ t.counter = (s.select n r).1) := by
  induction n generalizing r with
  | zero => exact ⟨Int.le_refl _, fun i t h₀ h₁ => by omega, Or.inl rfl⟩
  | succ n ih =>
    unfold State.select
    cases ht : s.task (n + 1) with
    | none =>
      obtain ⟨hle, hall, hwho⟩ := ih r
      refine ⟨hle, fun i t h₀ h₁ hi => ?_, hwho.imp_right fun hw => ⟨hw.1, Nat.le_succ_of_le hw.2.1, hw.2.2⟩⟩
      rcases Nat.lt_or_eq_of_le h₁ with hlt | rfl
      · exact hall i t h₀ (by omega) hi
      · rw [ht] at hi
        cases hi
    | some t =>
      dsimp only
      by_cases hbetter : t.state = .running ∧ r.1 < t.counter
      · rw [if_pos hbetter]
        obtain ⟨hle, hall, hwho⟩ := ih (t.counter, n + 1)
        dsimp only at hle
        refine ⟨by omega, fun i u h₀ h₁ hi hrun => ?_, ?_⟩
        · rcases Nat.lt_or_eq_of_le h₁ with hlt | rfl
          · exact hall i u h₀ (by omega) hi hrun
          · rw [ht] at hi
            cases hi
            exact hle
        · rcases hwho with heq | hwho
          · rw [heq]
            exact Or.inr ⟨Nat.succ_pos n, Nat.le_refl _, t, ht, hbetter.1, rfl⟩
          · exact Or.inr ⟨hwho.1, Nat.le_succ_of_le hwho.2.1, hwho.2.2⟩
      · rw [if_neg hbetter]
        obtain ⟨hle, hall, hwho⟩ := ih r
        refine ⟨hle, fun i u h₀ h₁ hi hrun => ?_, hwho.imp_right fun hw => ⟨hw.1, Nat.le_succ_of_le hw.2.1, hw.2.2⟩⟩
        rcases Nat.lt_or_eq_of_le h₁ with hlt | rfl
        · exact hall i u h₀ (by omega) hi hrun
        · rw [ht] at hi
          cases hi
          by_contra hgt
          exact hbetter ⟨hrun, by omega⟩

/-- The task chosen is task 0 only if no other is runnable. -/
def Fair (s : State) : Prop :=
  s.current = 0 → ∀ i t, 0 < i → i < nrTasks → s.task i = some t → t.state ≠ .running

theorem choice_fair (h : Sane s) : Fair { s with current := s.choice.2 } := by
  intro hzero i t h₀ h₁ ht hrun
  obtain ⟨-, hall, hwho⟩ := select_spec (s := s) (nrTasks - 1) (-1, 0)
  have hcounter := hall i t h₀ (by omega) ht hrun
  rcases hwho with heq | ⟨hpos, -⟩
  · have hneg : (s.select (nrTasks - 1) (-1, 0)).1 = -1 := by rw [heq]
    have := (h i t ht).counter
    omega
  · have : (s.select (nrTasks - 1) (-1, 0)).2 = 0 := hzero
    omega

/-- The task with the greatest counter has none left: it has after the next round. -/
theorem choice_recharge (h : Sane s) (hroom : ∀ i t, 0 < i → i < nrTasks → s.task i = some t →
    t.counter / 2 + t.priority < 2147483648) (hzero : s.choice.1 = 0) :
    (s.forTasks Task.recharge).choice.1 ≠ 0 := by
  obtain ⟨-, -, hwho⟩ := select_spec (s := s) (nrTasks - 1) (-1, 0)
  obtain ⟨-, hall, -⟩ := select_spec (s := s.forTasks Task.recharge) (nrTasks - 1) (-1, 0)
  change (s.select (nrTasks - 1) (-1, 0)).1 = 0 at hzero
  rcases hwho with heq | ⟨hpos, hle, t, ht, hrun, -⟩
  · rw [heq] at hzero
    cases hzero
  · have hlt : (s.select (nrTasks - 1) (-1, 0)).2 < nrTasks := Nat.lt_of_le_sub_one (by decide) hle
    have htask : (s.forTasks Task.recharge).task (s.select (nrTasks - 1) (-1, 0)).2 = some t.recharge := by
      unfold State.forTasks
      dsimp only
      rw [if_pos ⟨hpos, hlt⟩, ht]
      rfl
    have hcounter := hall _ t.recharge hpos hle htask hrun
    have hsane := h _ t ht
    have hp := hsane.priority
    have hc := hsane.counter
    have hwrap : t.recharge.counter = t.counter / 2 + t.priority :=
      wrap_of_fits (by omega) (hroom _ t hpos hlt ht)
    unfold State.choice
    omega

theorem spent_choice (hzero : s.choice.1 = 0) : Spent s := by
  obtain ⟨-, hall, hwho⟩ := select_spec (s := s) (nrTasks - 1) (-1, 0)
  change (s.select (nrTasks - 1) (-1, 0)).1 = 0 at hzero
  rw [hzero] at hall
  refine ⟨?_, fun i t h₀ h₁ ht hrun => hall i t h₀ (by omega) ht hrun⟩
  rcases hwho with heq | ⟨hpos, hle, t, ht, hrun, -⟩
  · rw [heq] at hzero
    cases hzero
  · exact ⟨_, t, hpos, Nat.lt_of_le_sub_one (by decide) hle, ht, hrun⟩

/-- The loop ends in the second round at the latest. -/
theorem loop_spec (h : Sane s) (hroom : Spent s → ∀ i t, 0 < i → i < nrTasks →
    s.task i = some t → t.counter / 2 + t.priority < 2147483648) :
    ∃ s', Sane s' ∧ Fair s' ∧ ∀ n, s.loop (n + 2) = some s' := by
  by_cases hzero : s.choice.1 = 0
  · have hfits := hroom (spent_choice hzero)
    have hnext := choice_recharge h hfits hzero
    have hsane := sane_recharge h hfits
    refine ⟨{ s.forTasks Task.recharge with current := (s.forTasks Task.recharge).choice.2 }, hsane,
      choice_fair hsane, fun n => ?_⟩
    unfold State.loop
    rw [if_neg (not_not.mpr hzero)]
    unfold State.loop
    rw [if_pos hnext]
  · refine ⟨{ s with current := s.choice.2 }, h, choice_fair h, fun n => ?_⟩
    unfold State.loop
    rw [if_pos hzero]

/-- More rounds are not needed. -/
theorem loop_mono {n : Nat} (h : s.loop n = some s') : s.loop (n + 1) = some s' := by
  induction n generalizing s with
  | zero => cases h
  | succ n ih =>
    unfold State.loop at h ⊢
    split_ifs at h ⊢
    · exact h
    · exact ih h

theorem loop_le {n m : Nat} (hnm : n ≤ m) (h : s.loop n = some s') : s.loop m = some s' := by
  induction hnm with
  | refl => exact h
  | step _ ih => exact loop_mono ih

theorem room_wakeSignalled (hroom : Room s) (hspent : Spent s.wakeSignalled) (i : Nat) (u : Task)
    (h₀ : 0 < i) (h₁ : i < nrTasks) (hu : s.wakeSignalled.task i = some u) :
    u.counter / 2 + u.priority < 2147483648 := by
  obtain ⟨t, ht, ⟨rfl, -⟩ | rfl⟩ := forTasks_some hu
  · rw [wakeUp_counter, wakeUp_priority]
    exact hroom hspent i t h₀ h₁ ht
  · exact hroom hspent i u h₀ h₁ ht

theorem schedule_spec (h : Sane s) (hroom : Room s) :
    ∃ s', Sane s' ∧ Fair s' ∧ ∀ n, s.schedule (n + 2) = some s' :=
  loop_spec (sane_wakeSignalled h) (room_wakeSignalled hroom)

theorem sane_schedule (h : Sane s) (hroom : Room s) {n : Nat} (hs : s.schedule n = some s') :
    Sane s' := by
  obtain ⟨s₁, hsane, -, hall⟩ := schedule_spec h hroom
  have hlong : s.schedule (n + 2) = some s' := loop_le (Nat.le_add_right n 2) hs
  rw [hall n] at hlong
  exact Option.some.inj hlong ▸ hsane

/-- A priority that would not be positive, also after an overflow, is not set. -/
theorem Task.Sane.nice {t : Task} (h : t.Sane) (increment : Int) : (t.nice increment).Sane := by
  unfold Task.nice
  split
  · rename_i hpos
    exact ⟨hpos, (wrap_fits _).2, h.counter, h.counterLt⟩
  · exact h

theorem Task.Sane.tick {t : Task} (h : t.Sane) : t.tick.Sane := by
  unfold Task.tick
  split
  · rename_i hpos
    exact ⟨h.priority, h.priorityLt, Int.le_of_lt hpos, (wrap_fits _).2⟩
  · exact ⟨h.priority, h.priorityLt, Int.le_refl 0, by show (0 : Int) < 2147483648; decide⟩

theorem Task.Sane.child {t : Task} (h : t.Sane) : t.child.Sane :=
  ⟨h.priority, h.priorityLt, Int.le_of_lt (Int.lt_of_lt_of_le Int.zero_lt_one h.priority), h.priorityLt⟩

theorem sane_tick (h : Sane s) : Sane s.tick := by
  unfold State.tick
  dsimp only
  cases ht : s.task s.current with
  | none => exact h
  | some t => exact sane_setTask (s := { s with jiffies := wrap (s.jiffies + 1) }) h _ (h _ t ht).tick

theorem sane_step (h : Sane s) (hs : Step Room s s') : Sane s' := by
  cases hs with
  | fork nr _ _ _ =>
    unfold State.fork
    cases ht : s.task s.current with
    | none => exact h
    | some t => exact sane_setTask h nr (h _ t ht).child
  | schedule n hroom hs => exact sane_schedule h hroom hs
  | timer cpl n hroom hs =>
    unfold State.doTimer at hs
    split at hs
    · rename_i hcall
      exact sane_schedule (sane_tick h) (hroom hcall.1 hcall.2) hs
    · exact Option.some.inj hs ▸ sane_tick h
  | nice increment _ _ =>
    unfold State.nice
    cases ht : s.task s.current with
    | none => exact h
    | some t => exact sane_setTask h _ ((h _ t ht).nice increment)
  | other i t ht x signal blocked alarm =>
    have hsane := h i t ht
    exact sane_setTask h i ⟨hsane.priority, hsane.priorityLt, hsane.counter, hsane.counterLt⟩

theorem sane_boot : Sane boot := by
  intro i t ht
  change (if i = 0 then some _ else none) = some t at ht
  split at ht
  · cases ht
    exact ⟨by decide, by decide, by decide, by decide⟩
  · cases ht

theorem sane_reach (hrun : Reach Room boot s) : Sane s := by
  induction hrun with
  | refl => exact sane_boot
  | tail _ hs ih => exact sane_step ih hs

/-- **No task is passed over for task 0.** As long as no counter overflows: priorities are
positive, counters not negative, `schedule` ends, and it chooses task 0 only if no other
task is runnable. -/
theorem never_starved (hrun : Reach Room boot s) :
    (∀ i t, s.task i = some t → 1 ≤ t.priority ∧ 0 ≤ t.counter) ∧
    (Room s → ∃ s', (∀ n, s.schedule (n + 2) = some s') ∧
      (s'.current = 0 → ∀ i t, 0 < i → i < nrTasks → s'.task i = some t → t.state ≠ .running)) := by
  have h := sane_reach hrun
  refine ⟨fun i t ht => ⟨(h i t ht).priority, (h i t ht).counter⟩, fun hroom => ?_⟩
  obtain ⟨s', -, hfair, hall⟩ := schedule_spec h hroom
  exact ⟨s', hall, hfair⟩

/-- A task, if there is one, sleeps or is woken. -/
def State.put (s : State) (i : Nat) (x : TaskState) : State :=
  match s.task i with
  | none => s
  | some t => s.setTask i { t with state := x }

theorem reach_put (i : Nat) (x : TaskState) {allow : State → Prop} (h : Reach allow boot s) :
    Reach allow boot (s.put i x) := by
  unfold State.put
  cases ht : s.task i with
  | none => exact h
  | some t => exact .tail h (.other i t ht x t.signal t.blocked t.alarm)

/-- The state after two rounds. -/
def State.scheduled (s : State) : State := (s.schedule 2).getD s

theorem reach_scheduled {allow : State → Prop} (h : Reach allow boot s) (hallow : allow s)
    (hs : (s.schedule 2).isSome) : Reach allow boot s.scheduled := by
  obtain ⟨s', hs'⟩ := Option.isSome_iff_exists.mp hs
  refine .tail h (.schedule 2 hallow ?_)
  unfold State.scheduled
  rw [hs']
  rfl

/-- Timer interrupts of kernel mode, which do not schedule. -/
theorem reach_ticks {allow : State → Prop} (h : Reach allow boot s) (n : Nat) :
    Reach allow boot (State.tick^[n] s) := by
  induction n with
  | zero => exact h
  | succ n ih =>
    rw [Function.iterate_succ_apply']
    exact .tail ih (.timer 0 0 (fun _ hcpl => absurd rfl hcpl) (by unfold State.doTimer; rw [if_neg (by simp)]))

theorem room_of_small (h : ∀ i < nrTasks, ∀ t ∈ s.task i, t.counter / 2 + t.priority < 2147483648) : Room s :=
  fun _ i t _ hi ht => h i hi t ht

/-- Task 0 forks task 1, which uses up its time. -/
def tired : State := State.tick^[15] (boot.fork 1).scheduled

/-- It is given a new slice, and chosen again. -/
theorem never_starved_refill :
    tired.task 1 = some ⟨.running, 0, 15, 0, 0, 0⟩ ∧ tired.scheduled.task 1 = some ⟨.running, 15, 15, 0, 0, 0⟩ ∧
    (∀ i t, tired.scheduled.task i = some t → 1 ≤ t.priority ∧ 0 ≤ t.counter) ∧
    ∃ s', (∀ n, tired.schedule (n + 2) = some s') ∧ s'.current = 1 := by
  have hfork : Reach Room boot (boot.fork 1) := .single (.fork 1 (by decide) (by decide) rfl)
  have hfirst : Reach Room boot (boot.fork 1).scheduled :=
    reach_scheduled hfork (room_of_small (by decide +kernel)) (by decide +kernel)
  have htired : Reach Room boot tired := reach_ticks hfirst 15
  have hroom : Room tired := room_of_small (by decide +kernel)
  have hnext : Reach Room boot tired.scheduled := reach_scheduled htired hroom (by decide +kernel)
  refine ⟨by decide +kernel, by decide +kernel, (never_starved hnext).1, ?_⟩
  obtain ⟨s', hs', -⟩ := (never_starved htired).2 hroom
  have hchosen : (tired.schedule 2).map State.current = some 1 := by decide +kernel
  rw [hs' 0] at hchosen
  exact ⟨s', hs', Option.some.inj hchosen⟩

/-- Task 1 forks task 2, with little time left for it, then takes the highest priority and
sleeps. -/
def greedy : State := ((((boot.fork 1).scheduled.nice 14).fork 2).nice (-2147483646)).put 1 .uninterruptible

/-- Task 2 uses up its time, and new slices are given; task 1 is woken and task 2 sleeps. -/
def overflown : State := ((greedy.scheduled.tick.scheduled).put 1 .running).put 2 .uninterruptible

/-- Task 1 is the only one that is runnable, and task 0 is chosen. -/
theorem nice_starves : ¬ ∀ s : State, Reach (fun _ => True) boot s →
    (∀ i t, s.task i = some t → 1 ≤ t.priority ∧ 0 ≤ t.counter) ∧
    ∃ s', (∀ n, s.schedule (n + 2) = some s') ∧
      (s'.current = 0 → ∀ i t, 0 < i → i < nrTasks → s'.task i = some t → t.state ≠ .running) := by
  intro h
  have hfirst : Reach (fun _ => True) boot (boot.fork 1).scheduled :=
    reach_scheduled (.single (.fork 1 (by decide) (by decide) rfl)) trivial (by decide +kernel)
  have hgreedy : Reach (fun _ => True) boot greedy :=
    reach_put 1 .uninterruptible (.tail (.tail (.tail hfirst (.nice 14 (by decide) (by decide)))
      (.fork 2 (by decide) (by decide) (by decide +kernel))) (.nice (-2147483646) (by decide) (by decide)))
  have hturn : Reach (fun _ => True) boot greedy.scheduled :=
    reach_scheduled hgreedy trivial (by decide +kernel)
  have hticked : Reach (fun _ => True) boot greedy.scheduled.tick := reach_ticks hturn 1
  have hrun : Reach (fun _ => True) boot overflown :=
    reach_put 2 .uninterruptible (reach_put 1 .running (reach_scheduled hticked trivial (by decide +kernel)))
  obtain ⟨-, s', hs', hfair⟩ := h overflown hrun
  have hidle : (overflown.schedule 2).map (fun s => (s.current, s.task 1)) =
      some (0, some ⟨.running, -2147483642, 2147483647, 0, 0, 0⟩) := by decide +kernel
  rw [hs' 0] at hidle
  have hpair := Option.some.inj hidle
  exact hfair (congrArg Prod.fst hpair) 1 _ (by decide) (by decide) (congrArg Prod.snd hpair) rfl

end Linux011.Kernel.Sched
