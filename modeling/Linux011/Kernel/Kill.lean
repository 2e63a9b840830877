import Linux011.Kernel.Exit

/-!
# `sys_kill`

Four loops over the table of tasks, from the last slot down to slot 1, with
`send_sig` for the tasks they choose. For pid 0 the code looks for the group whose
number is the pid of the caller. The last `else` belongs to the `if` in the loop for
pid -1, not to the tests of the pid: that loop ends with the first task that takes the
signal, and for a pid below -1 no loop is left.

* `killLoop_spec`, `killAll_spec` — the tasks that a loop signals;
* `kill_reaches` — exactly when the targets get the signal and nothing else changes;
* `kill_misses_group` — a shell's pipeline, which `kill` reaches in none of the three cases.
-/

namespace Linux011.Kernel.Kill

open Linux011.Kernel.Sched (nrTasks wrap bit)

def eperm : Int := 1
def einval : Int := 22

structure Task extends toProc : Exit.Task where
  euid : Nat

/-- `task[]`. -/
abbrev Table := Nat → Option Task

/-- `p->signal |= (1<<(sig-1))`. -/
def Task.raise (t : Task) (sig : Int) : Task := { t with signal := t.signal ||| bit sig.toNat }

/-- `current->euid==p->euid` or `suser()`. -/
def Permitted (me t : Task) : Prop := me.euid = t.euid ∨ me.euid = 0

instance (me t : Task) : Decidable (Permitted me t) := inferInstanceAs (Decidable (_ ∨ _))

variable (me : Task)

/-- `send_sig` to what is in a slot; `me` is `current`. -/
def sendSig (s : Table) (sig : Int) (i : Nat) (priv : Bool) : Table × Int :=
  match s i with
  | none => (s, -einval)
  | some t =>
    if sig < 1 ∨ 32 < sig then (s, -einval)
    else if priv ∨ Permitted me t then (Function.update s i (some (t.raise sig)), 0)
    else (s, -eperm)

/-- A loop of `sys_kill`, from slot `n` down to 1, and `retval`. -/
def killLoop (sig : Int) (priv : Bool) (pick : Option Task → Bool) : Nat → Table → Int → Table × Int
  | 0, s, retval => (s, retval)
  | n + 1, s, retval =>
    if pick (s (n + 1)) then
      let (s, err) := sendSig me s sig (n + 1) priv
      killLoop sig priv pick n s (if err ≠ 0 then err else retval)
    else killLoop sig priv pick n s retval

/-- The loop for pid -1 with the `else` of its `if`: when a task has taken the signal, the
loop for a group goes through the slots that are left, and leaves none to this one. -/
def killAll (pid sig : Int) : Nat → Table → Int → Table × Int
  | 0, s, retval => (s, retval)
  | n + 1, s, retval =>
    let (s, err) := sendSig me s sig (n + 1) false
    if err ≠ 0 then killAll pid sig n s err
    else killLoop me sig false (·.any (·.pgrp = wrap (-pid))) n s retval

/-- `sys_kill`. `-pid` is an `int`. -/
def sysKill (s : Table) (pid sig : Int) : Table × Int :=
  if pid = 0 then killLoop me sig true (·.any (·.pgrp = me.pid)) (nrTasks - 1) s 0
  else if 0 < pid then killLoop me sig false (·.any (·.pid = pid)) (nrTasks - 1) s 0
  else if pid = -1 then killAll me pid sig (nrTasks - 1) s 0
  -- `else if (pid == -1)` has no `else` of its own
  else (s, 0)

/-! ## What is meant -/

/-- The tasks that `kill` is for. -/
def Target (pid : Int) (t : Task) : Prop :=
  if pid = 0 then t.pgrp = me.pgrp
  else if 0 < pid then t.pid = pid ∧ Permitted me t
  else if pid = -1 then Permitted me t
  else t.pgrp = wrap (-pid) ∧ Permitted me t

instance (pid : Int) (t : Task) : Decidable (Target me pid t) := by
  unfold Target
  infer_instance

/-- The targets other than task 0 have the signal, and nothing else has changed. -/
def Reaches (s : Table) (pid sig : Int) : Prop :=
  ∀ i, (sysKill me s pid sig).1 i =
    (s i).map fun t => if 0 < i ∧ i < nrTasks ∧ Target me pid t then t.raise sig else t

/-- The signal is pending already. -/
def Task.has (t : Task) (sig : Int) : Bool := t.signal.getLsbD (sig.toNat - 1)

/-- The tasks the caller's pid stands for as a group are those of the caller's group. -/
def GroupOf (s : Table) (sig : Int) : Prop :=
  ∀ i t, 0 < i → i < nrTasks → s i = some t → t.has sig = false → (t.pgrp = me.pid ↔ t.pgrp = me.pgrp)

/-- No task in slots `i+1` to `n` takes a signal from the caller. -/
def FirstTaker (n : Nat) (s : Table) (i : Nat) : Prop :=
  ∀ j, j < n + 1 → i < j → (s j).all fun t => ¬ Permitted me t

instance (n : Nat) (s : Table) (i : Nat) : Decidable (FirstTaker me n s i) :=
  inferInstanceAs (Decidable (∀ j, j < n + 1 → _))

/-- Those who take a signal from the caller are the first of them, in group 1, or have it. -/
def OneTaker (s : Table) (sig : Int) : Prop :=
  ∀ i t, 0 < i → i < nrTasks → s i = some t → t.has sig = false → Permitted me t →
    FirstTaker me (nrTasks - 1) s i ∨ t.pgrp = 1

/-- The targets have the signal already. -/
def Pending (s : Table) (pid sig : Int) : Prop :=
  ∀ i t, 0 < i → i < nrTasks → s i = some t → Target me pid t → t.has sig = true

/-! ## The loops -/

variable {me} {s : Table} {sig : Int} {priv : Bool} {pick : Option Task → Bool}

theorem sendSig_slot (hsig : 1 ≤ sig ∧ sig ≤ 32) (i j : Nat) :
    (sendSig me s sig i priv).1 j =
      if j = i then (s i).map fun t => if priv ∨ Permitted me t then t.raise sig else t else s j := by
  have hbad : ¬ (sig < 1 ∨ 32 < sig) := by omega
  unfold sendSig
  cases hi : s i with
  | none =>
    by_cases hj : j = i
    · simp [hj, hi]
    · simp [hj]
  | some t =>
    simp only [if_neg hbad]
    by_cases hp : priv = true ∨ Permitted me t
    · by_cases hj : j = i
      · simp [hj, hp]
      · simp [hj, hp]
    · by_cases hj : j = i
      · simp [hj, hp, hi]
      · simp [hj, hp]

/-- The tasks that a loop signals. -/
theorem killLoop_spec (hsig : 1 ≤ sig ∧ sig ≤ 32) (n : Nat) (s : Table) (retval : Int) (i : Nat) :
    (killLoop me sig priv pick n s retval).1 i =
      if 0 < i ∧ i ≤ n ∧ pick (s i) then (s i).map fun t => if priv ∨ Permitted me t then t.raise sig else t
      else s i := by
  induction n generalizing s retval with
  | zero =>
    have hout : ¬ (0 < i ∧ i ≤ 0 ∧ pick (s i) = true) := by omega
    simp only [killLoop, if_neg hout]
  | succ n ih =>
    unfold killLoop
    by_cases hpick : pick (s (n + 1)) = true
    · rw [if_pos hpick]
      dsimp only
      rw [ih, sendSig_slot hsig]
      by_cases hi : i = n + 1
      · have hlow : ¬ (n + 1 ≤ n) := by omega
        simp [hi, hpick, hlow]
      · have hle : i ≤ n + 1 ↔ i ≤ n := by omega
        simp [hi, hle]
    · rw [if_neg hpick, ih]
      by_cases hi : i = n + 1
      · simp [hi, hpick]
      · have hle : i ≤ n + 1 ↔ i ≤ n := by omega
        simp [hle]

/-- `send_sig` to a task that does not take the signal. -/
theorem sendSig_refused (hsig : 1 ≤ sig ∧ sig ≤ 32) {i : Nat} (h : ∀ t, s i = some t → ¬ Permitted me t) :
    (sendSig me s sig i false).1 = s ∧ (sendSig me s sig i false).2 ≠ 0 := by
  have hbad : ¬ (sig < 1 ∨ 32 < sig) := by omega
  unfold sendSig
  cases hi : s i with
  | none => simp [einval]
  | some t => simp [hbad, h t hi, eperm]

theorem sendSig_taken (hsig : 1 ≤ sig ∧ sig ≤ 32) {i : Nat} {t : Task} (hi : s i = some t)
    (ht : Permitted me t) :
    sendSig me s sig i false = (Function.update s i (some (t.raise sig)), 0) := by
  have hbad : ¬ (sig < 1 ∨ 32 < sig) := by omega
  unfold sendSig
  rw [hi]
  simp only [if_neg hbad, Bool.false_eq_true, false_or, if_pos ht]

/-- The tasks that the loop for pid -1 signals: the first that takes the signal, and those
behind it that are in the group `-pid`. -/
theorem killAll_spec (hsig : 1 ≤ sig ∧ sig ≤ 32) (pid : Int) (n : Nat) (s : Table) (retval : Int) (i : Nat) :
    (killAll me pid sig n s retval).1 i = (s i).map fun t =>
      if 0 < i ∧ i ≤ n ∧ Permitted me t ∧ (FirstTaker me n s i ∨ t.pgrp = wrap (-pid)) then t.raise sig
      else t := by
  induction n generalizing s retval with
  | zero =>
    have hout : ∀ p : Prop, ¬ (0 < i ∧ i ≤ 0 ∧ p) := fun p h => by omega
    simp only [killAll, if_neg (hout _), Option.map_id']
  | succ n ih =>
    unfold killAll
    by_cases htakes : ∃ t, s (n + 1) = some t ∧ Permitted me t
    · obtain ⟨t, ht, hperm⟩ := htakes
      rw [sendSig_taken hsig ht hperm]
      dsimp only
      rw [if_neg (by simp), killLoop_spec hsig]
      by_cases hi : i = n + 1
      · have hfirst : FirstTaker me (n + 1) s (n + 1) := by
          intro j hle hlt
          omega
        have hlow : ¬ n + 1 ≤ n := by omega
        simp [hi, hlow, ht, hperm, hfirst]
      · have hle : i ≤ n + 1 ↔ i ≤ n := by omega
        have hlater : i ≤ n → ¬ FirstTaker me (n + 1) s i := by
          intro hin h
          have hno := h (n + 1) (by omega) (by omega)
          rw [ht] at hno
          simp [hperm] at hno
        rw [Function.update_of_ne hi]
        cases hsi : s i with
        | none => simp
        | some u =>
          by_cases hin : i ≤ n
          · by_cases hgroup : u.pgrp = wrap (-pid)
            · by_cases hpos : 0 < i <;> simp [hle, hin, hgroup, hpos]
            · simp [hle, hgroup, hlater hin]
          · simp [hle, hin]
    · have hrefused : ∀ t, s (n + 1) = some t → ¬ Permitted me t := fun t ht hperm => htakes ⟨t, ht, hperm⟩
      obtain ⟨hsame, herr⟩ := sendSig_refused hsig hrefused
      dsimp only
      rw [if_pos herr, hsame, ih]
      cases hsi : s i with
      | none => rfl
      | some u =>
        by_cases hi : i = n + 1
        · have hno : ¬ Permitted me u := hrefused u (hi ▸ hsi)
          simp [hno]
        · have hle : i ≤ n + 1 ↔ i ≤ n := by omega
          have hfirst : FirstTaker me (n + 1) s i ↔ FirstTaker me n s i := by
            refine ⟨fun h j hle hlt => h j (by omega) hlt, fun h j hle hlt => ?_⟩
            by_cases hj : j = n + 1
            · rw [hj]
              cases hn : s (n + 1) with
              | none => rfl
              | some t => simpa using hrefused t hn
            · exact h j (by omega) hlt
          simp only [hle, hfirst]

/-- A bit that is set stays as it is. -/
theorem raise_eq_self (hsig : 1 ≤ sig ∧ sig ≤ 32) (t : Task) : t.raise sig = t ↔ t.has sig = true := by
  have hk : sig.toNat - 1 < 32 := by omega
  have hbit : ∀ j, (bit sig.toNat).getLsbD j = decide (j = sig.toNat - 1) := by
    intro j
    have htwo : bit sig.toNat = BitVec.twoPow 32 (sig.toNat - 1) := rfl
    rw [htwo, BitVec.getLsbD_twoPow]
    simp [hk, eq_comm]
  unfold Task.raise Task.has
  constructor
  · intro h
    have hsame : t.signal ||| bit sig.toNat = t.signal := congrArg (fun u : Task => u.signal) h
    rw [← hsame, BitVec.getLsbD_or, hbit]
    simp
  · intro h
    have hsame : t.signal ||| bit sig.toNat = t.signal := by
      ext j hj
      simp only [← BitVec.getLsbD_eq_getElem, BitVec.getLsbD_or, hbit]
      by_cases heq : j = sig.toNat - 1
      · simp [heq, h]
      · simp [heq]
    rw [hsame]

theorem raise_iff (hsig : 1 ≤ sig ∧ sig ≤ 32) (t : Task) (p q : Prop) [Decidable p] [Decidable q] :
    (if p then t.raise sig else t) = (if q then t.raise sig else t) ↔ (t.has sig = false → (p ↔ q)) := by
  have hself := raise_eq_self hsig t
  cases hhas : t.has sig with
  | true =>
    have hsame : t.raise sig = t := hself.mpr hhas
    simp [hsame]
  | false =>
    have hnew : t.raise sig ≠ t := by simp [hself, hhas]
    by_cases hp : p
    · by_cases hq : q
      · simp [hp, hq]
      · simp [hp, hq, hnew]
    · by_cases hq : q
      · simp [hp, hq, hnew.symm]
      · simp [hp, hq]

/-! ## The system call -/

/-- The tasks that `sys_kill` signals. -/
def Hit (me : Task) (s : Table) (pid : Int) (i : Nat) (t : Task) : Prop :=
  if pid = 0 then t.pgrp = me.pid
  else if 0 < pid then t.pid = pid ∧ Permitted me t
  else if pid = -1 then Permitted me t ∧ (FirstTaker me (nrTasks - 1) s i ∨ t.pgrp = 1)
  else False

instance (me : Task) (s : Table) (pid : Int) (i : Nat) (t : Task) : Decidable (Hit me s pid i t) := by
  unfold Hit
  infer_instance

theorem sysKill_slot (hsig : 1 ≤ sig ∧ sig ≤ 32) (s : Table) (pid : Int) (i : Nat) :
    (sysKill me s pid sig).1 i =
      (s i).map fun t => if 0 < i ∧ i < nrTasks ∧ Hit me s pid i t then t.raise sig else t := by
  have hlast : i ≤ nrTasks - 1 ↔ i < nrTasks := by
    unfold nrTasks
    omega
  unfold sysKill
  -- one loop with its test, whatever the test is
  have hloop : ∀ (priv : Bool) (pick : Option Task → Bool),
      (∀ t, s i = some t → (pick (some t) = true ∧ (priv = true ∨ Permitted me t) ↔ Hit me s pid i t)) →
      (killLoop me sig priv pick (nrTasks - 1) s 0).1 i =
        (s i).map fun t => if 0 < i ∧ i < nrTasks ∧ Hit me s pid i t then t.raise sig else t := by
    intro priv pick hpick
    rw [killLoop_spec hsig]
    cases hi : s i with
    | none => simp
    | some t =>
      have ht := hpick t hi
      by_cases hrange : 0 < i ∧ i < nrTasks
      · by_cases hp : pick (some t) = true
        · simp [hlast, hrange, hp, ← ht]
        · simp [hlast, hrange, hp, ← ht]
      · simp [hlast, ← and_assoc, hrange]
  by_cases h0 : pid = 0
  · rw [if_pos h0]
    refine hloop _ _ fun t _ => ?_
    simp [Hit, h0]
  rw [if_neg h0]
  by_cases hpos : 0 < pid
  · rw [if_pos hpos]
    refine hloop _ _ fun t _ => ?_
    simp [Hit, h0, hpos]
  rw [if_neg hpos]
  by_cases hall : pid = -1
  · have hone : wrap (-pid) = 1 := by
      rw [hall]
      decide
    rw [if_pos hall, killAll_spec hsig, hone]
    simp only [hlast, Hit, if_neg h0, if_neg hpos, if_pos hall]
  · rw [if_neg hall]
    simp [Hit, h0, hpos, hall]

/-- **`sys_kill` reaches its targets**, and changes nothing else, exactly if, apart from the
tasks that have the signal already: for pid 0 the group with the number of the caller is
the caller's; for pid -1 no task but the first one to take the signal and those in group 1
would take it; for a group there is no target at all. -/
theorem kill_reaches (hsig : 1 ≤ sig ∧ sig ≤ 32) (me : Task) (s : Table) (pid : Int) :
    Reaches me s pid sig ↔
      (pid = 0 → GroupOf me s sig) ∧ (pid = -1 → OneTaker me s sig) ∧ (pid < -1 → Pending me s pid sig) := by
  have hslot : ∀ i t, s i = some t → ((sysKill me s pid sig).1 i = (s i).map (fun t =>
      if 0 < i ∧ i < nrTasks ∧ Target me pid t then t.raise sig else t) ↔
        (t.has sig = false → 0 < i → i < nrTasks → (Hit me s pid i t ↔ Target me pid t))) := by
    intro i t hi
    rw [sysKill_slot hsig, hi, Option.map_some, Option.map_some, Option.some_inj, raise_iff hsig]
    simp only [and_congr_right_iff]
  have hall : Reaches me s pid sig ↔ ∀ i t, s i = some t → t.has sig = false → 0 < i → i < nrTasks →
      (Hit me s pid i t ↔ Target me pid t) := by
    constructor
    · exact fun h i t hi => (hslot i t hi).mp (h i)
    · intro h i
      cases hi : s i with
      | none =>
            rw [sysKill_slot hsig, hi, Option.map_none, Option.map_none]
      | some t =>
        rw [← hi]
        exact (hslot i t hi).mpr (h i t hi)
  rw [hall]
  -- the four branches of the function
  by_cases h0 : pid = 0
  · simp only [Hit, Target, if_pos h0, GroupOf]
    constructor
    · exact fun h => ⟨fun _ i t hpos hlt hi hhas => h i t hi hhas hpos hlt, by omega, by omega⟩
    · exact fun h i t hi hhas hpos hlt => h.1 h0 i t hpos hlt hi hhas
  by_cases hpos : 0 < pid
  · simp only [Hit, Target, if_neg h0, if_pos hpos]
    exact ⟨fun _ => ⟨by omega, by omega, by omega⟩, fun _ _ _ _ _ _ _ => trivial⟩
  by_cases hm1 : pid = -1
  · simp only [Hit, Target, if_neg h0, if_neg hpos, if_pos hm1, OneTaker]
    constructor
    · exact fun h => ⟨by omega, fun _ i t hi0 hlt hi hhas hp => ((h i t hi hhas hi0 hlt).mpr hp).2, by omega⟩
    · exact fun h i t hi hhas hi0 hlt => ⟨fun hhit => hhit.1, fun hp => ⟨hp, h.2.1 hm1 i t hi0 hlt hi hhas hp⟩⟩
  · have hlow : pid < -1 := by omega
    simp only [Hit, if_neg h0, if_neg hpos, if_neg hm1, false_iff, Pending]
    constructor
    · refine fun h => ⟨by omega, by omega, fun _ i t hi0 hlt hi htarget => ?_⟩
      by_contra hhas
      exact h i t hi (by simpa using hhas) hi0 hlt htarget
    · intro h i t hi hhas hi0 hlt htarget
      rw [h.2.2 hlow i t hi0 hlt hi htarget] at hhas
      cases hhas

/-- A process of user 100. -/
def proc (pid pgrp : Int) : Task where
  state     := .running
  counter   := 15
  priority  := 15
  signal    := 0
  blocked   := 0
  alarm     := 0
  pid       := pid
  father    := 4
  pgrp      := pgrp
  session   := 4
  leader    := false
  exitCode  := 0
  sigaction := fun _ => ⟨0, 0, 0⟩
  phase     := .user
  serial    := 0
  euid      := 100

/-- A shell and two processes of one pipeline. -/
def pipeline : Table
  | 1 => some (proc 4 4)
  | 2 => some (proc 5 5)
  | 3 => some (proc 6 5)
  | _ => none

theorem kill_reaches_leader : Reaches (proc 5 5) pipeline 0 15 :=
  (kill_reaches (by decide) _ _ _).mpr ⟨fun _ _ _ _ _ _ _ => Iff.rfl, by omega, by omega⟩

/-- A signal that should come to a slot and does not. -/
theorem missed {i : Nat} {t : Task} (hi : s i = some t) (hpos : 0 < i) (hlt : i < nrTasks) {pid : Int}
    (ht : Target me pid t) (hnew : (t.raise sig).signal ≠ t.signal)
    (h : ((sysKill me s pid sig).1 i).map (·.signal) = some t.signal) : ¬ Reaches me s pid sig := by
  intro hreach
  rw [hreach i, hi, Option.map_some, Option.map_some, if_pos ⟨hpos, hlt, ht⟩] at h
  exact hnew (Option.some.inj h)

/-- The second process of the pipeline signals its group as 0 and as -5, and everybody: the
other process of the pipeline has no signal. -/
theorem kill_misses_group :
    ¬ Reaches (proc 6 5) pipeline 0 15 ∧ ¬ Reaches (proc 6 5) pipeline (-5) 15 ∧
      ¬ Reaches (proc 6 5) pipeline (-1) 15 := by
  have hnew : ((proc 5 5).raise 15).signal ≠ (proc 5 5).signal := by decide
  refine ⟨?_, ?_, ?_⟩
  all_goals
    exact missed (show pipeline 2 = some (proc 5 5) from rfl) (by decide) (by decide) (by decide) hnew
      (by decide +kernel)

end Linux011.Kernel.Kill
