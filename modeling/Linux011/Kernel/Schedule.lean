import Linux011.Kernel.Sched

/-!
# Which task `schedule` chooses

The loop of `schedule` uses `c` for the greatest counter seen and to tell whether a task
was runnable at all. The slots are searched from the last one down, and task 0 is not one
of those searched.

* `choice_best` — the runnable task with the greatest counter, the last of them if
  several have it;
* `schedule_picks` — what `schedule` chooses, after which changes to the tasks.
-/

namespace Linux011.Kernel.Sched

/-- Slot `i` has a task the scheduler may choose. -/
def State.Runnable (s : State) (i : Nat) (t : Task) : Prop :=
  0 < i ∧ i < nrTasks ∧ s.task i = some t ∧ t.state = .running

/-- No runnable task has a greater counter, and none of those after it the same. -/
def State.Best (s : State) (i : Nat) : Prop :=
  ∃ t, s.Runnable i t ∧
    ∀ j u, s.Runnable j u → u.counter < t.counter ∨ u.counter = t.counter ∧ j ≤ i

def Task.Expired (t : Task) (jiffies : Int) : Prop := t.alarm ≠ 0 ∧ t.alarm < jiffies

instance (t : Task) (jiffies : Int) : Decidable (t.Expired jiffies) :=
  inferInstanceAs (Decidable (_ ∧ _))

/-- `u` is `t` after its alarm and its signals were looked at, up to the counter. -/
structure Task.Woken (t : Task) (jiffies : Int) (u : Task) : Prop where
  priority : u.priority = t.priority
  blocked  : u.blocked = t.blocked
  alarm    : u.alarm = if t.Expired jiffies then 0 else t.alarm
  signal   : u.signal = if t.Expired jiffies then t.signal ||| bit sigalrm else t.signal
  state    : u.state =
    if t.state = .interruptible ∧ u.signal &&& ~~~(blockable &&& t.blocked) ≠ 0 then .running
    else t.state

/-- The tasks in the slots up to `nrTasks` but task 0 are woken, and get the counter
`count` gives them. -/
structure Passed (count : Task → Int) (s s' : State) : Prop where
  jiffies : s'.jiffies = s.jiffies
  other   : ∀ i, ¬ (0 < i ∧ i < nrTasks) → s'.task i = s.task i
  free    : ∀ i, s.task i = none → s'.task i = none
  woken   : ∀ i t, 0 < i → i < nrTasks → s.task i = some t →
    ∃ u, s'.task i = some u ∧ t.Woken s.jiffies u ∧ u.counter = count t

variable {s s' : State}

/-! ## The selection -/

/-- A slot is chosen because its counter is greater than all before it. -/
theorem select_last (n : Nat) (r : Int × Nat) : s.select n r = r ∨ r.1 < (s.select n r).1 ∧
    ∀ i t, (s.select n r).2 < i → i ≤ n → s.task i = some t → t.state = .running →
      t.counter < (s.select n r).1 := by
  induction n generalizing r with
  | zero => exact Or.inl rfl
  | succ n ih =>
    unfold State.select
    cases hn : s.task (n + 1) with
    | none =>
      refine (ih r).imp_right fun h => ⟨h.1, fun i t hi hin ht hrun => ?_⟩
      have hne : i ≠ n + 1 := by
        rintro rfl
        rw [hn] at ht
        cases ht
      exact h.2 i t hi (by omega) ht hrun
    | some u =>
      dsimp only
      by_cases hbetter : u.state = .running ∧ r.1 < u.counter
      · rw [if_pos hbetter]
        rcases ih (u.counter, n + 1) with heq | ⟨hlt, hall⟩
        · rw [heq]
          exact Or.inr ⟨hbetter.2, fun i t hi hin => absurd hin (Nat.not_le_of_lt hi)⟩
        · refine Or.inr ⟨Int.lt_trans hbetter.2 hlt, fun i t hi hin ht hrun => ?_⟩
          rcases Nat.lt_or_eq_of_le hin with hin | rfl
          · exact hall i t hi (by omega) ht hrun
          · rw [hn] at ht
            cases ht
            exact hlt
      · rw [if_neg hbetter]
        refine (ih r).imp_right fun h => ⟨h.1, fun i t hi hin ht hrun => ?_⟩
        rcases Nat.lt_or_eq_of_le hin with hin | rfl
        · exact h.2 i t hi (by omega) ht hrun
        · rw [hn] at ht
          cases ht
          have hle : u.counter ≤ r.1 := Int.not_lt.mp fun hgt => hbetter ⟨hrun, hgt⟩
          exact Int.lt_of_le_of_lt hle h.1

/-- Nothing is runnable, and the choice is task 0. -/
theorem choice_idle (h : ¬ ∃ i t, s.Runnable i t) : s.choice = (-1, 0) := by
  obtain ⟨-, -, heq | ⟨hpos, hle, t, ht, hrun, -⟩⟩ := select_spec (s := s) (nrTasks - 1) (-1, 0)
  · exact heq
  · exact absurd ⟨_, t, hpos, Nat.lt_of_le_sub_one (by decide) hle, ht, hrun⟩ h

/-- The choice is the best, and `c` its counter. -/
theorem choice_best (h : Sane s) (hrun : ∃ i t, s.Runnable i t) :
    s.Best s.choice.2 ∧ ∃ t, s.Runnable s.choice.2 t ∧ t.counter = s.choice.1 := by
  obtain ⟨i, t, h₀, h₁, ht, hstate⟩ := hrun
  have hcounter := (h i t ht).counter
  obtain ⟨-, hmax, hwho⟩ := select_spec (s := s) (nrTasks - 1) (-1, 0)
  have hchosen := hmax i t h₀ (by omega) ht hstate
  rcases select_last (s := s) (nrTasks - 1) (-1, 0) with heq | ⟨hlt, hlast⟩
  · rw [heq] at hchosen
    omega
  rcases hwho with heq | ⟨hpos, hle, u, hu, hurun, hueq⟩
  · rw [heq] at hlt
    exact absurd hlt (Int.lt_irrefl _)
  have hu : s.Runnable s.choice.2 u := ⟨hpos, Nat.lt_of_le_sub_one (by decide) hle, hu, hurun⟩
  refine ⟨⟨u, hu, fun j v ⟨hj, hj', hv, hvrun⟩ => ?_⟩, u, hu, hueq⟩
  have hvle := hmax j v hj (by omega) hv hvrun
  rcases Nat.lt_or_ge s.choice.2 j with hjlt | hjle
  · exact Or.inl (hueq ▸ hlast j v hjlt (by omega) hv hvrun)
  · omega

/-! ## The passes over the table -/

theorem wakeUp_woken (t : Task) (jiffies : Int) : t.Woken jiffies (t.wakeUp jiffies) := by
  by_cases hexp : t.Expired jiffies
  · have hcond : t.alarm ≠ 0 ∧ t.alarm < jiffies := hexp
    unfold Task.wakeUp
    simp only [if_pos hcond]
    split_ifs with hwake
    · refine ⟨rfl, rfl, by rw [if_pos hexp], by rw [if_pos hexp], ?_⟩
      rw [if_pos ⟨hwake.2, hwake.1⟩]
    · refine ⟨rfl, rfl, by rw [if_pos hexp], by rw [if_pos hexp], ?_⟩
      rw [if_neg fun hw => hwake ⟨hw.2, hw.1⟩]
  · have hcond : ¬ (t.alarm ≠ 0 ∧ t.alarm < jiffies) := hexp
    unfold Task.wakeUp
    simp only [if_neg hcond]
    split_ifs with hwake
    · refine ⟨rfl, rfl, by rw [if_neg hexp], by rw [if_neg hexp], ?_⟩
      rw [if_pos ⟨hwake.2, hwake.1⟩]
    · refine ⟨rfl, rfl, by rw [if_neg hexp], by rw [if_neg hexp], ?_⟩
      rw [if_neg fun hw => hwake ⟨hw.2, hw.1⟩]

theorem forTasks_other (f : Task → Task) {i : Nat} (hi : ¬ (0 < i ∧ i < nrTasks)) :
    (s.forTasks f).task i = s.task i := if_neg hi

theorem forTasks_free (f : Task → Task) {i : Nat} (hi : s.task i = none) : (s.forTasks f).task i = none := by
  unfold State.forTasks
  dsimp only
  rw [hi]
  exact ite_self none

theorem forTasks_at (f : Task → Task) {i : Nat} {t : Task} (h₀ : 0 < i) (h₁ : i < nrTasks)
    (ht : s.task i = some t) : (s.forTasks f).task i = some (f t) := by
  unfold State.forTasks
  dsimp only
  rw [if_pos ⟨h₀, h₁⟩, ht]
  rfl

theorem passed_wakeSignalled (s : State) : Passed Task.counter s s.wakeSignalled :=
  ⟨rfl, fun _ hi => forTasks_other _ hi, fun _ hi => forTasks_free _ hi,
    fun _ t h₀ h₁ ht => ⟨_, forTasks_at _ h₀ h₁ ht, wakeUp_woken t s.jiffies, wakeUp_counter t s.jiffies⟩⟩

theorem passed_recharge (h : Sane s)
    (hfit : ∀ i t, s.task i = some t → t.counter / 2 + t.priority < 2147483648) :
    Passed (fun t => t.counter / 2 + t.priority) s (s.wakeSignalled.forTasks Task.recharge) := by
  refine ⟨rfl, fun i hi => ?_, fun i hi => forTasks_free _ (forTasks_free _ hi), fun i t h₀ h₁ ht => ?_⟩
  · rw [forTasks_other _ hi]
    exact forTasks_other _ hi
  · have hw := wakeUp_woken t s.jiffies
    refine ⟨_, forTasks_at _ h₀ h₁ (forTasks_at _ h₀ h₁ ht),
      ⟨hw.priority, hw.blocked, hw.alarm, hw.signal, hw.state⟩, ?_⟩
    have hsane := h i t ht
    have hp := hsane.priority
    have hc := hsane.counter
    show wrap ((t.wakeUp s.jiffies).counter / 2 + (t.wakeUp s.jiffies).priority) = _
    rw [wakeUp_counter, wakeUp_priority]
    exact wrap_of_fits (by omega) (hfit i t ht)

/-- What `schedule` does. `w` are the tasks after the alarms and signals, `r` those with
new time slices. -/
structure Picks (s w r s' : State) : Prop where
  woken    : Passed Task.counter s w
  recharge : Passed (fun t => t.counter / 2 + t.priority) s r
  idle     : (¬ ∃ i t, w.Runnable i t) → s' = { w with current := 0 }
  left     : (∃ i t, w.Runnable i t ∧ 0 < t.counter) →
    w.Best s'.current ∧ s' = { w with current := s'.current }
  spent    : (∃ i t, w.Runnable i t) → (∀ i t, w.Runnable i t → t.counter = 0) →
    r.Best s'.current ∧ s' = { r with current := s'.current }

/-- From every table, `schedule` ends in the second round at the latest, and picks the
runnable task with the highest counter: no table keeps the machine in the loop. -/
theorem schedule_picks (h : Sane s)
    (hfit : ∀ i t, s.task i = some t → t.counter / 2 + t.priority < 2147483648) :
    ∃ w r s', (∀ n, s.schedule (n + 2) = some s') ∧ Picks s w r s' := by
  have hw : Sane s.wakeSignalled := sane_wakeSignalled h
  have hroom : ∀ i t, 0 < i → i < nrTasks → s.wakeSignalled.task i = some t →
      t.counter / 2 + t.priority < 2147483648 := by
    intro i u _ _ hu
    obtain ⟨t, ht, ⟨rfl, -⟩ | rfl⟩ := forTasks_some hu
    · rw [wakeUp_counter, wakeUp_priority]
      exact hfit i t ht
    · exact hfit i u ht
  have hpass := passed_recharge h hfit
  by_cases hzero : s.wakeSignalled.choice.1 = 0
  · have hrun : ∃ i t, s.wakeSignalled.Runnable i t := by
      obtain ⟨⟨i, t, h₀, h₁, ht, hstate⟩, -⟩ := spent_choice hzero
      exact ⟨i, t, h₀, h₁, ht, hstate⟩
    have hnext := choice_recharge hw hroom hzero
    refine ⟨_, _, { s.wakeSignalled.forTasks Task.recharge with
      current := (s.wakeSignalled.forTasks Task.recharge).choice.2 }, fun n => ?_,
      passed_wakeSignalled s, hpass, fun hidle => absurd hrun hidle,
      fun hbetter => ?_, fun _ _ => ⟨?_, rfl⟩⟩
    · unfold State.schedule State.loop
      rw [if_neg (not_not.mpr hzero)]
      unfold State.loop
      rw [if_pos hnext]
    · obtain ⟨i, t, ⟨h₀, h₁, ht, hstate⟩, hpos⟩ := hbetter
      obtain ⟨-, hspent⟩ := spent_choice hzero
      exact absurd (hspent i t h₀ h₁ ht hstate) (Int.not_le.mpr hpos)
    · obtain ⟨i, t, h₀, h₁, ht, hstate⟩ := hrun
      exact (choice_best (sane_recharge hw hroom) ⟨i, _, h₀, h₁, forTasks_at _ h₀ h₁ ht, hstate⟩).1
  · refine ⟨_, _, { s.wakeSignalled with current := s.wakeSignalled.choice.2 }, fun n => ?_,
      passed_wakeSignalled s, hpass, fun hidle => ?_, fun hbetter => ?_, fun hrun hspent => ?_⟩
    · unfold State.schedule State.loop
      rw [if_pos hzero]
    · rw [choice_idle hidle]
    · obtain ⟨i, t, hrun, _⟩ := hbetter
      exact ⟨(choice_best hw ⟨i, t, hrun⟩).1, rfl⟩
    · obtain ⟨-, t, ht, hcount⟩ := choice_best hw hrun
      exact absurd (hcount.symm.trans (hspent _ t ht)) hzero

/-- A task that uses up its slice, with another that has been woken by its alarm. -/
def alarmed : State where
  task i :=
    if i = 0 then some ⟨.running, 15, 15, 0, 0, 0⟩
    else if i = 1 then some ⟨.running, 0, 15, 0, 0, 0⟩
    else if i = 2 then some ⟨.interruptible, 0, 15, 0, 0, 99⟩
    else none
  current := 1
  jiffies := 100

/-- Both get a new slice, and the second is chosen. -/
theorem schedule_picks_alarmed : ∃ w r s', (∀ n, alarmed.schedule (n + 2) = some s') ∧
    Picks alarmed w r s' := by
  have hall : ∀ i t, alarmed.task i = some t →
      t = ⟨.running, 15, 15, 0, 0, 0⟩ ∨ t = ⟨.running, 0, 15, 0, 0, 0⟩ ∨
        t = ⟨.interruptible, 0, 15, 0, 0, 99⟩ := by
    intro i t ht
    change (if i = 0 then some _ else if i = 1 then some _ else if i = 2 then some _ else none) =
      some t at ht
    split_ifs at ht
    · exact Or.inl (Option.some.inj ht).symm
    · exact Or.inr (Or.inl (Option.some.inj ht).symm)
    · exact Or.inr (Or.inr (Option.some.inj ht).symm)
  refine schedule_picks (fun i t ht => ?_) fun i t ht => ?_
  · obtain rfl | rfl | rfl := hall i t ht <;> exact ⟨by decide, by decide, by decide, by decide⟩
  · obtain rfl | rfl | rfl := hall i t ht <;> decide

end Linux011.Kernel.Sched
