import Mathlib.Algebra.BigOperators.Group.Finset.Basic
import Mathlib.Algebra.Order.BigOperators.Group.Finset
import Mathlib.Algebra.Order.Ring.Int
import Linux011.Kernel.Schedule
import Linux011.Lib.Potential

/-!
# How long a runnable task waits

A task that stays runnable is chosen once the others have used up their counters, at the
latest those they get with the next time slices. New tasks and higher priorities put this
off, and are counted.

* `load` — the ticks the other tasks may still take;
* `load_schedule` — the two rounds of `schedule` do not add to it;
* `waits_bounded` — the ticks of a run in which the task is never chosen.
-/

namespace Linux011.Kernel.Sched

open Linux011.Lib.Potential

/-! ## What the other tasks may take -/

def State.counterOf (s : State) (i : Nat) : Int := ((s.task i).map Task.counter).getD 0

def State.priorityOf (s : State) (i : Nat) : Int := ((s.task i).map Task.priority).getD 0

def others (i : Nat) : Finset Nat := (Finset.range nrTasks).erase i

/-- The ticks the others may take before slot `i` is chosen. Without a counter of its own,
it waits for the next time slices. -/
def State.load (s : State) (i : Nat) : Int :=
  ∑ j ∈ others i, s.counterOf j + if s.counterOf i = 0 then ∑ j ∈ others i, s.priorityOf j else 0

/-- A timer interrupt takes a tick from a task that has some left. -/
def State.charged (s : State) : Int := if 0 < s.counterOf s.current then 1 else 0

/-- What the tasks and interrupts do, the ticks charged and what adds to the load. A task
that is gone is released. -/
inductive Turn : State → Int → Int → State → Prop
  | schedule {s s' : State} (n : Nat) (hroom : Room s) (hs : s.schedule n = some s') : Turn s 0 0 s'
  | timer {s s' : State} (cpl n : Nat) (hroom : s.expired → cpl ≠ 0 → Room s.tick)
      (hs : s.doTimer cpl n = some s') : Turn s s.charged 0 s'
  | fork {s : State} (nr : Nat) (h₀ : 0 < nr) (h₁ : nr < nrTasks) (hfree : s.task nr = none) :
      Turn s 0 (2 * s.priorityOf s.current) (s.fork nr)
  | nice {s : State} (increment : Int) (h₁ : -2147483648 ≤ increment) (h₂ : increment < 2147483648) :
      Turn s 0 (max 0 ((s.nice increment).priorityOf s.current - s.priorityOf s.current)) (s.nice increment)
  | other {s : State} (i : Nat) (t : Task) (ht : s.task i = some t) (x : Sleep.TaskState)
      (signal blocked : BitVec 32) (alarm : Int) :
      Turn s 0 0 (s.setTask i { t with state := x, signal := signal, blocked := blocked, alarm := alarm })
  | release {s : State} (j : Nat) : Turn s 0 0 { s with task := Function.update s.task j none }

/-- Slot `i` is runnable and not chosen. -/
def State.Passes (s : State) (i : Nat) : Prop := (∃ t, s.Runnable i t) ∧ s.current ≠ i

/-- A run with the ticks charged in it and what was added, in which slot `i` waits all
the time. -/
abbrev Waits (i : Nat) : State → Int → Int → State → Prop :=
  Run fun s ticks added s' => Turn s ticks added s' ∧ s'.Passes i

variable {s s' : State} {i j : Nat}

theorem counterOf_some {t : Task} (ht : s.task i = some t) : s.counterOf i = t.counter := by
  simp [State.counterOf, ht]

theorem priorityOf_some {t : Task} (ht : s.task i = some t) : s.priorityOf i = t.priority := by
  simp [State.priorityOf, ht]

theorem counterOf_nonneg (h : Sane s) (i : Nat) : 0 ≤ s.counterOf i := by
  cases ht : s.task i with
  | none => simp [State.counterOf, ht]
  | some t => simpa [State.counterOf, ht] using (h i t ht).counter

theorem priorityOf_nonneg (h : Sane s) (i : Nat) : 0 ≤ s.priorityOf i := by
  cases ht : s.task i with
  | none => simp [State.priorityOf, ht]
  | some t =>
    have := (h i t ht).priority
    simp only [State.priorityOf, ht, Option.map_some, Option.getD_some]
    omega

theorem load_congr (hc : ∀ j, s'.counterOf j = s.counterOf j) (hp : ∀ j, s'.priorityOf j = s.priorityOf j) :
    s'.load i = s.load i := by
  unfold State.load
  simp only [hc, hp]

theorem load_nonneg (h : Sane s) (i : Nat) : 0 ≤ s.load i := by
  have hc : 0 ≤ ∑ j ∈ others i, s.counterOf j := Finset.sum_nonneg fun j _ => counterOf_nonneg h j
  have hp : 0 ≤ ∑ j ∈ others i, s.priorityOf j := Finset.sum_nonneg fun j _ => priorityOf_nonneg h j
  unfold State.load
  split_ifs <;> omega

theorem load_le_sum (h : Sane s) (i : Nat) :
    s.load i ≤ ∑ j ∈ others i, (s.counterOf j + s.priorityOf j) := by
  have hp : 0 ≤ ∑ j ∈ others i, s.priorityOf j := Finset.sum_nonneg fun j _ => priorityOf_nonneg h j
  rw [Finset.sum_add_distrib]
  unfold State.load
  split_ifs <;> omega

/-! ## A change at one slot -/

theorem sum_slot {f g : Nat → Int} (k : Nat) (slots : Finset Nat) (h : ∀ j ≠ k, g j = f j) :
    ∑ j ∈ slots, g j = ∑ j ∈ slots, f j + if k ∈ slots then g k - f k else 0 := by
  split_ifs with hk
  · have hrest : ∑ j ∈ slots.erase k, g j = ∑ j ∈ slots.erase k, f j :=
      Finset.sum_congr rfl fun j hj => h j (Finset.ne_of_mem_erase hj)
    rw [← Finset.add_sum_erase slots g hk, ← Finset.add_sum_erase slots f hk, hrest]
    omega
  · rw [add_zero]
    exact Finset.sum_congr rfl fun j hj => h j fun hjk => hk (hjk ▸ hj)

/-- Only slot `k` differs, and the one that waits is another. -/
theorem load_slot (k : Nat) (hki : k ≠ i) (h : ∀ j ≠ k, s'.task j = s.task j) :
    s'.load i = s.load i + if k ∈ others i then s'.counterOf k - s.counterOf k +
      (if s.counterOf i = 0 then s'.priorityOf k - s.priorityOf k else 0) else 0 := by
  have hc : ∀ j ≠ k, s'.counterOf j = s.counterOf j := fun j hj => by
    unfold State.counterOf
    rw [h j hj]
  have hp : ∀ j ≠ k, s'.priorityOf j = s.priorityOf j := fun j hj => by
    unfold State.priorityOf
    rw [h j hj]
  unfold State.load
  rw [hc i hki.symm, sum_slot k (others i) hc, sum_slot k (others i) hp]
  split_ifs <;> omega

theorem load_slot_le (k : Nat) (hki : k ≠ i) (h : ∀ j ≠ k, s'.task j = s.task j) {added : Int}
    (hadd : s'.counterOf k - s.counterOf k + max 0 (s'.priorityOf k - s.priorityOf k) ≤ added)
    (hnn : 0 ≤ added) : s'.load i ≤ s.load i + added := by
  rw [load_slot k hki h]
  have hle := le_max_left 0 (s'.priorityOf k - s.priorityOf k)
  have hri := le_max_right 0 (s'.priorityOf k - s.priorityOf k)
  split_ifs <;> omega

theorem setTask_at (s : State) (k : Nat) (t : Task) : (s.setTask k t).task k = some t :=
  Function.update_self _ _ _

theorem setTask_ne (s : State) {k : Nat} (t : Task) (hj : j ≠ k) : (s.setTask k t).task j = s.task j :=
  Function.update_of_ne hj _ _

/-! ## The two rounds of `schedule` -/

theorem loop_cases (h : Sane s) (hroom : Spent s → ∀ i t, 0 < i → i < nrTasks →
    s.task i = some t → t.counter / 2 + t.priority < 2147483648) {n : Nat} (hs : s.loop n = some s') :
    s' = { s with current := s.choice.2 } ∨
    Spent s ∧ s' = { s.forTasks Task.recharge with current := (s.forTasks Task.recharge).choice.2 } := by
  have hlong : s.loop (n + 2) = some s' := loop_le (Nat.le_add_right n 2) hs
  unfold State.loop at hlong
  split_ifs at hlong with hzero
  · exact Or.inl (Option.some.inj hlong).symm
  · have hspent := spent_choice (not_not.mp hzero)
    unfold State.loop at hlong
    rw [if_pos (choice_recharge h (hroom hspent) (not_not.mp hzero))] at hlong
    exact Or.inr ⟨hspent, (Option.some.inj hlong).symm⟩

theorem choice_lt (s : State) : s.choice.2 < nrTasks := by
  obtain ⟨-, -, heq | ⟨-, hle, -⟩⟩ := select_spec (s := s) (nrTasks - 1) (-1, 0)
  · unfold State.choice
    rw [heq]
    decide
  · exact Nat.lt_of_le_sub_one (by decide) hle

theorem load_wakeSignalled (s : State) (i : Nat) : s.wakeSignalled.load i = s.load i := by
  refine load_congr (fun j => ?_) fun j => ?_
  · unfold State.counterOf State.wakeSignalled State.forTasks
    dsimp only
    split_ifs
    · cases s.task j with
      | none => rfl
      | some t => simp
    · rfl
  · unfold State.priorityOf State.wakeSignalled State.forTasks
    dsimp only
    split_ifs
    · cases s.task j with
      | none => rfl
      | some t => simp
    · rfl

/-- New time slices are no more than what was left and the priorities. -/
theorem counterOf_recharge (h : Sane s) (hroom : ∀ i t, 0 < i → i < nrTasks →
    s.task i = some t → t.counter / 2 + t.priority < 2147483648) (j : Nat) :
    (s.forTasks Task.recharge).counterOf j ≤ s.counterOf j + s.priorityOf j := by
  by_cases hj : 0 < j ∧ j < nrTasks
  · cases ht : s.task j with
    | none => simp [State.counterOf, State.priorityOf, ht, forTasks_free _ ht]
    | some t =>
      have hc := (h j t ht).counter
      have hp := (h j t ht).priority
      have hnew : t.recharge.counter = t.counter / 2 + t.priority :=
        wrap_of_fits (by omega) (hroom j t hj.1 hj.2 ht)
      rw [counterOf_some ht, priorityOf_some ht, counterOf_some (forTasks_at _ hj.1 hj.2 ht), hnew]
      omega
  · have hsame : (s.forTasks Task.recharge).counterOf j = s.counterOf j := by
      unfold State.counterOf
      rw [forTasks_other _ hj]
    have := priorityOf_nonneg h j
    omega

/-- New slices are given when the task that waits has none: then it has. -/
theorem load_recharge (h : Sane s) (hroom : ∀ i t, 0 < i → i < nrTasks → s.task i = some t →
    t.counter / 2 + t.priority < 2147483648) {t : Task} (ht : s.Runnable i t) (hzero : t.counter = 0) :
    (s.forTasks Task.recharge).load i ≤ s.load i := by
  obtain ⟨h₀, h₁, htask, -⟩ := ht
  have hp := (h i t htask).priority
  have hnew : (s.forTasks Task.recharge).counterOf i ≠ 0 := by
    have hcounter : t.recharge.counter = t.counter / 2 + t.priority :=
      wrap_of_fits (by omega) (hroom i t h₀ h₁ htask)
    rw [counterOf_some (forTasks_at _ h₀ h₁ htask), hcounter]
    omega
  unfold State.load
  rw [if_neg hnew, if_pos ((counterOf_some htask).trans hzero), add_zero, ← Finset.sum_add_distrib]
  exact Finset.sum_le_sum fun j _ => counterOf_recharge h hroom j

theorem load_schedule (h : Sane s) (hroom : Room s) {t : Task} (ht : s.Runnable i t) {n : Nat}
    (hs : s.schedule n = some s') : s'.load i ≤ s.load i ∧ s'.current < nrTasks := by
  have hfit := room_wakeSignalled hroom
  have hwoken : ∃ u, s.wakeSignalled.Runnable i u := by
    refine ⟨_, ht.1, ht.2.1, forTasks_at _ ht.1 ht.2.1 ht.2.2.1, ?_⟩
    rw [(wakeUp_woken t s.jiffies).state, if_neg (by rw [ht.2.2.2]; simp), ht.2.2.2]
  obtain ⟨u, hu⟩ := hwoken
  rw [← load_wakeSignalled s i]
  obtain rfl | ⟨hspent, rfl⟩ := loop_cases (sane_wakeSignalled h) hfit hs
  · exact ⟨le_of_eq (load_congr (fun _ => rfl) fun _ => rfl), choice_lt _⟩
  · have hcounter := (sane_wakeSignalled h i u hu.2.2.1).counter
    have hnone := hspent.2 i u hu.1 hu.2.1 hu.2.2.1 hu.2.2.2
    refine ⟨le_trans (le_of_eq (load_congr (s := s.wakeSignalled.forTasks Task.recharge) ?_ ?_))
      (load_recharge (sane_wakeSignalled h) (hfit hspent) hu (by omega)), choice_lt _⟩ <;>
      exact fun _ => rfl

/-! ## A tick -/

theorem tick_task (s : State) : s.tick.task = match s.task s.current with
    | none => s.task
    | some t => Function.update s.task s.current (some t.tick) := by
  unfold State.tick
  dsimp only
  cases s.task s.current <;> rfl

theorem tick_current (s : State) : s.tick.current = s.current := by
  unfold State.tick
  dsimp only
  cases s.task s.current <;> rfl

/-- The tick is one less for the task that is interrupted. -/
theorem load_tick (h : Sane s) (hcur : s.current < nrTasks) (hpass : s.Passes i) :
    s.charged + s.tick.load i = s.load i := by
  cases ht : s.task s.current with
  | none =>
    have hsame : s.tick.task = s.task := by rw [tick_task, ht]
    have hzero : s.charged = 0 := by simp [State.charged, State.counterOf, ht]
    rw [hzero, zero_add]
    exact load_congr (fun j => by unfold State.counterOf; rw [hsame])
      fun j => by unfold State.priorityOf; rw [hsame]
  | some t =>
    have htick : s.tick.task = Function.update s.task s.current (some t.tick) := by rw [tick_task, ht]
    have hnew : s.tick.task s.current = some t.tick := by rw [htick, Function.update_self]
    have hmem : s.current ∈ others i := Finset.mem_erase.mpr ⟨hpass.2, Finset.mem_range.mpr hcur⟩
    have hload := load_slot s.current hpass.2 (s := s) (i := i) fun j hj => by
      rw [htick, Function.update_of_ne hj]
    rw [if_pos hmem, counterOf_some hnew, priorityOf_some hnew, priorityOf_some ht, counterOf_some ht] at hload
    have hcharged : s.charged = if 0 < t.counter then 1 else 0 := by
      unfold State.charged
      rw [counterOf_some ht]
    have hsane := h _ t ht
    have hc := hsane.counter
    have hlt := hsane.counterLt
    have hwrap : wrap (t.counter - 1) = t.counter - 1 := wrap_of_fits (by omega) (by omega)
    have hcount : t.tick.counter = if 0 < t.counter then t.counter - 1 else 0 := by
      unfold Task.tick
      rw [hwrap]
      split_ifs <;> dsimp only <;> omega
    have hprio : t.tick.priority = t.priority := by
      unfold Task.tick
      split_ifs <;> rfl
    rw [hcount, hprio, sub_self, ite_self] at hload
    rw [hcharged, hload]
    split_ifs <;> omega

theorem passes_tick (hpass : s.Passes i) : s.tick.Passes i := by
  obtain ⟨⟨t, h₀, h₁, htask, hrun⟩, hcur⟩ := hpass
  refine ⟨⟨t, h₀, h₁, ?_, hrun⟩, by rwa [tick_current]⟩
  rw [tick_task]
  cases s.task s.current with
  | none => exact htask
  | some u => exact (Function.update_of_ne hcur.symm _ _).trans htask

/-! ## A run in which the task waits -/

/-- What holds while slot `i` waits. -/
structure Queued (i : Nat) (s : State) : Prop where
  sane    : Sane s
  current : s.current < nrTasks
  passes  : s.Passes i

theorem sane_release (h : Sane s) (j : Nat) : Sane { s with task := Function.update s.task j none } := by
  intro k t ht
  change Function.update s.task j none k = some t at ht
  by_cases hkj : k = j
  · rw [hkj, Function.update_self] at ht
    cases ht
  · rw [Function.update_of_ne hkj] at ht
    exact h k t ht

theorem sane_turn {ticks added : Int} (h : Sane s) (hs : Turn s ticks added s') : Sane s' := by
  cases hs with
  | schedule n hroom hs => exact sane_step h (.schedule n hroom hs)
  | timer cpl n hroom hs => exact sane_step h (.timer cpl n hroom hs)
  | fork nr h₀ h₁ hfree => exact sane_step h (.fork nr h₀ h₁ hfree)
  | nice increment h₁ h₂ => exact sane_step h (.nice increment h₁ h₂)
  | other i t ht x signal blocked alarm => exact sane_step h (.other i t ht x signal blocked alarm)
  | release j => exact sane_release h j

theorem nice_task (s : State) (increment : Int) : (s.nice increment).task = match s.task s.current with
    | none => s.task
    | some t => Function.update s.task s.current (some (t.nice increment)) := by
  unfold State.nice
  cases s.task s.current <;> rfl

theorem load_fork (h : Sane s) (hpass : s.Passes i) {nr : Nat} (hfree : s.task nr = none) :
    (s.fork nr).load i ≤ s.load i + 2 * s.priorityOf s.current := by
  have hp := priorityOf_nonneg h s.current
  unfold State.fork
  cases ht : s.task s.current with
  | none =>
    dsimp only
    omega
  | some t =>
    obtain ⟨⟨u, -, -, htask, -⟩, -⟩ := hpass
    have hne : nr ≠ i := by
      rintro rfl
      rw [hfree] at htask
      cases htask
    have hprio := (h _ t ht).priority
    refine load_slot_le nr hne (fun j hj => setTask_ne s _ hj) ?_ (by omega)
    rw [counterOf_some (setTask_at s nr _), priorityOf_some (setTask_at s nr _), priorityOf_some ht]
    simp only [State.counterOf, State.priorityOf, hfree, Option.map_none, Option.getD_none, Task.child]
    omega

theorem load_nice (hpass : s.Passes i) (increment : Int) : (s.nice increment).load i ≤
    s.load i + max 0 ((s.nice increment).priorityOf s.current - s.priorityOf s.current) := by
  refine load_slot_le s.current hpass.2 (fun j hj => ?_) ?_ (le_max_left _ _)
  · rw [nice_task]
    cases s.task s.current with
    | none => rfl
    | some t => exact Function.update_of_ne hj _ _
  · have hcounter : (s.nice increment).counterOf s.current = s.counterOf s.current := by
      unfold State.counterOf
      rw [nice_task]
      cases ht : s.task s.current with
      | none => simp [ht]
      | some t =>
        have hsame : (t.nice increment).counter = t.counter := by
          unfold Task.nice
          split_ifs <;> rfl
        simp [hsame]
    omega

theorem load_release (h : Sane s) {k : Nat} (hki : k ≠ i) :
    ({ s with task := Function.update s.task k none } : State).load i ≤ s.load i := by
  rw [← add_zero (s.load i)]
  refine load_slot_le k hki (fun j hj => Function.update_of_ne hj none s.task) ?_ (Int.le_refl 0)
  · have hc := counterOf_nonneg h k
    have hp := priorityOf_nonneg h k
    have hgone : Function.update s.task k none k = none := Function.update_self _ _ _
    have hcounter : ({ s with task := Function.update s.task k none } : State).counterOf k = 0 := by
      simp [State.counterOf]
    have hprio : ({ s with task := Function.update s.task k none } : State).priorityOf k = 0 := by
      simp [State.priorityOf]
    rw [hcounter, hprio]
    omega

/-- One step pays for its tick with the load of the others. -/
theorem turn_paid {ticks added : Int} (h : Queued i s) (hs : Turn s ticks added s' ∧ s'.Passes i) :
    Queued i s' ∧ ticks + s'.load i ≤ s.load i + added := by
  obtain ⟨hturn, hpass⟩ := hs
  have hsane := sane_turn h.sane hturn
  obtain ⟨t, ht⟩ := h.passes.1
  cases hturn with
  | schedule n hroom hs =>
    obtain ⟨hle, hcur⟩ := load_schedule h.sane hroom ht hs
    exact ⟨⟨hsane, hcur, hpass⟩, by omega⟩
  | timer cpl n hroom hs =>
    have htick := load_tick h.sane h.current h.passes
    obtain ⟨u, hu⟩ := (passes_tick h.passes).1
    unfold State.doTimer at hs
    split_ifs at hs with hcall
    · obtain ⟨hle, hcur⟩ := load_schedule (sane_tick h.sane) (hroom hcall.1 hcall.2) hu hs
      exact ⟨⟨hsane, hcur, hpass⟩, by omega⟩
    · obtain rfl := Option.some.inj hs
      exact ⟨⟨hsane, tick_current s ▸ h.current, hpass⟩, by omega⟩
  | fork nr _ _ hfree =>
    have hcur : (s.fork nr).current = s.current := by
      unfold State.fork
      cases s.task s.current <;> rfl
    have hle := load_fork h.sane h.passes hfree
    exact ⟨⟨hsane, hcur ▸ h.current, hpass⟩, by omega⟩
  | nice increment _ _ =>
    have hcur : (s.nice increment).current = s.current := by
      unfold State.nice
      cases s.task s.current <;> rfl
    have hle := load_nice h.passes increment
    exact ⟨⟨hsane, hcur ▸ h.current, hpass⟩, by omega⟩
  | other k u hu x signal blocked alarm =>
    refine ⟨⟨hsane, h.current, hpass⟩, ?_⟩
    rw [load_congr (s := s)]
    · omega
    · intro j
      by_cases hjk : j = k
      · rw [hjk, counterOf_some (setTask_at s k _), counterOf_some hu]
      · unfold State.counterOf
        rw [setTask_ne s _ hjk]
    · intro j
      by_cases hjk : j = k
      · rw [hjk, priorityOf_some (setTask_at s k _), priorityOf_some hu]
      · unfold State.priorityOf
        rw [setTask_ne s _ hjk]
  | release k =>
    obtain ⟨⟨u, -, -, hu, -⟩, -⟩ := id hpass
    have hne : k ≠ i := by
      rintro rfl
      have hgone : Function.update s.task k none k = none := Function.update_self _ _ _
      rw [show Function.update s.task k none k = some u from hu] at hgone
      cases hgone
    have hle := load_release h.sane hne
    exact ⟨⟨hsane, h.current, hpass⟩, by omega⟩

/-- While a task stays runnable and is not chosen, no more ticks are charged to the others
than their counters and priorities allow, and what forks and `nice` have added. -/
theorem waits_bounded {ticks added : Int} (h : Sane s) (hcur : s.current < nrTasks) (hpass : s.Passes i)
    (hrun : Waits i s ticks added s') :
    ticks ≤ ∑ j ∈ others i, (s.counterOf j + s.priorityOf j) + added := by
  obtain ⟨hq, hpaid⟩ := hrun.bounded (Queued i) (State.load · i) (fun _ _ _ _ => turn_paid)
    ⟨h, hcur, hpass⟩
  have hend := load_nonneg hq.sane i
  have hstart := load_le_sum h i
  omega

/-- Task 1 has two ticks left, and task 2 none. -/
def busy : State where
  task i :=
    if i = 0 then some ⟨.running, 15, 15, 0, 0, 0⟩
    else if i = 1 then some ⟨.running, 2, 15, 0, 0, 0⟩
    else if i = 2 then some ⟨.running, 0, 15, 0, 0, 0⟩
    else none
  current := 1
  jiffies := 0

/-- Task 2 waits for the first of them. -/
theorem waits_bounded_busy : 1 ≤ ∑ j ∈ others 2, (busy.counterOf j + busy.priorityOf j) := by
  have hsane : Sane busy := by
    intro i t ht
    change (if i = 0 then some _ else if i = 1 then some _ else if i = 2 then some _ else none) = some t at ht
    split_ifs at ht <;> (cases ht; exact ⟨by decide, by decide, by decide, by decide⟩)
  have hpass : busy.Passes 2 := ⟨⟨_, by decide, by decide, rfl, rfl⟩, by decide⟩
  have hturn : Turn busy busy.charged 0 busy.tick :=
    .timer 3 0 (fun hexp => absurd hexp (by decide)) (by unfold State.doTimer; rw [if_neg (by decide)])
  have hwait : Waits 2 busy (0 + busy.charged) (0 + 0) busy.tick := (Run.refl busy).tail ⟨hturn, passes_tick hpass⟩
  have hbound := waits_bounded hsane (by decide) hpass hwait
  have hone : busy.charged = 1 := by decide
  omega

end Linux011.Kernel.Sched
