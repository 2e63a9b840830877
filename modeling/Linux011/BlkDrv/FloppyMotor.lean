import Mathlib.Data.List.Basic
import Mathlib.Logic.Function.Basic
import Mathlib.Tactic.Common

/-!
# Floppy motors

`ticks_to_floppy_on`, `floppy_off` and `do_floppy_timer`, with what the floppy driver does
to `current_DOR`. A motor needs half a second to come up to speed, and is turned off three
seconds after its last use.

* `State.floppyTimer` — the loop of `do_floppy_timer`, one drive after the other;
* `timer_motor` — what it does to each of them;
* `motor_up` — a drive that is said to be ready has turned for half a second;
* `motor_stops` — the tick at which a motor is turned off;
* `kept_run` — what the controller is told, in every run.
-/

namespace Linux011.BlkDrv.FloppyMotor

def hz : Nat := 100

/-- `current_DOR`, `selected`, `mon_timer` and `moff_timer`, and the register `FD_DOR`. -/
structure State where
  currentDOR : BitVec 8
  selected   : Bool
  monTimer   : Nat → Nat
  moffTimer  : Nat → Nat
  port       : BitVec 8

/-- `outb(current_DOR,FD_DOR)`. -/
def State.outb (s : State) (mask : BitVec 8) : State := { s with currentDOR := mask, port := mask }

/-- `ticks_to_floppy_on`. Nothing if it panics. -/
def ticksToFloppyOn (s : State) (nr : Nat) : Option (State × Nat) :=
  if 3 < nr then none
  else
    let s := { s with moffTimer := Function.update s.moffTimer nr 10000 }
    let mask := 0x10#8 <<< nr ||| s.currentDOR
    let mask := if s.selected then mask else mask &&& 0xFC#8 ||| BitVec.ofNat 8 nr
    if mask ≠ s.currentDOR then
      let mon :=
        if (mask ^^^ s.currentDOR) &&& 0xf0#8 ≠ 0 then hz / 2
        else if s.monTimer nr < 2 then 2 else s.monTimer nr
      some ({ s with monTimer := Function.update s.monTimer nr mon }.outb mask, mon)
    else some (s, s.monTimer nr)

def floppyOff (s : State) (nr : Nat) : State :=
  { s with moffTimer := Function.update s.moffTimer nr (3 * hz) }

/-- A round of the loop of `do_floppy_timer`. -/
def State.floppyTimer1 (s : State) (i : Nat) : State :=
  if 0x10#8 <<< i &&& s.currentDOR = 0 then s
  else if s.monTimer i ≠ 0 then { s with monTimer := Function.update s.monTimer i (s.monTimer i - 1) }
  else if s.moffTimer i = 0 then s.outb (s.currentDOR &&& ~~~(0x10#8 <<< i))
  else { s with moffTimer := Function.update s.moffTimer i (s.moffTimer i - 1) }

/-- `do_floppy_timer`. -/
def State.floppyTimer (s : State) : State := (List.range 4).foldl State.floppyTimer1 s

/-- The part of `do_timer` about the motors. -/
def State.doTimer (s : State) : State := if s.currentDOR &&& 0xf0#8 ≠ 0 then s.floppyTimer else s

/-- `floppy_on_interrupt`, up to the transfer. -/
def floppyOnInterrupt (s : State) (drive : Nat) : State :=
  let s := { s with selected := true }
  if BitVec.ofNat 8 drive ≠ s.currentDOR &&& 3#8 then
    s.outb (s.currentDOR &&& 0xFC#8 ||| BitVec.ofNat 8 drive)
  else s

def floppyDeselect (s : State) : State := { s with selected := false }

/-- `reset_floppy` pulls bit 2 of the register low for a while. -/
def resetFloppy (s : State) : State := s.outb s.currentDOR

def boot : State where
  currentDOR := 0x0C#8
  selected   := false
  monTimer _ := 0
  moffTimer _ := 0
  port       := 0x0C#8

/-- What the driver, its callers and the clock do. -/
inductive Event
  | on (nr : Nat)
  | off (nr : Nat)
  | tick
  | select (drive : Nat)
  | deselect
  | reset
  deriving DecidableEq, Repr

/-- The drive is one of the four. -/
def Event.Ok : Event → Prop
  | .on nr | .off nr | .select nr => nr < 4
  | _ => True

def State.next (s : State) : Event → State
  | .on nr => ((ticksToFloppyOn s nr).map Prod.fst).getD s
  | .off nr => floppyOff s nr
  | .tick => s.doTimer
  | .select drive => floppyOnInterrupt s drive
  | .deselect => floppyDeselect s
  | .reset => resetFloppy s

def State.run (s : State) (es : List Event) : State := es.foldl State.next s

def ticks (es : List Event) : Nat := es.count .tick

/-- The motor of drive `i` is on. -/
def State.on (s : State) (i : Nat) : Bool := s.currentDOR.getLsbD (4 + i)

/-- One drive by itself. -/
structure Motor where
  on   : Bool
  mon  : Nat
  moff : Nat

def State.motor (s : State) (i : Nat) : Motor := ⟨s.on i, s.monTimer i, s.moffTimer i⟩

def Motor.tick (m : Motor) : Motor :=
  if m.on = false then m
  else if m.mon ≠ 0 then { m with mon := m.mon - 1 }
  else if m.moff = 0 then { m with on := false }
  else { m with moff := m.moff - 1 }

/-- The ticks until the motor is off. -/
def Motor.left (m : Motor) : Nat := if m.on then m.mon + m.moff + 1 else 0

/-- For how many ticks each motor has been on, after an event. -/
def State.turned (s : State) (e : Event) (t : Nat → Nat) (i : Nat) : Nat :=
  if s.on i ∧ (s.next e).on i then t i + ticks [e] else 0

/-- A run with the ticks each motor has been on. -/
def State.runTurned (s : State) (t : Nat → Nat) : List Event → State × (Nat → Nat)
  | [] => (s, t)
  | e :: es => (s.next e).runTurned (s.turned e t) es

variable {s : State} {i j nr : Nat} {e : Event} {es : List Event}

/-! ## The register -/

theorem motor_bit : ∀ i < 4, ∀ j < 4, (0x10#8 <<< i).getLsbD (4 + j) = decide (j = i) := by decide

theorem select_bits : ∀ nr < 4, ∀ j < 4,
    (0xFC#8).getLsbD (4 + j) = true ∧ (BitVec.ofNat 8 nr).getLsbD (4 + j) = false := by
  decide

theorem motor_off : ∀ d : BitVec 8, ∀ i < 4, (0x10#8 <<< i &&& d = 0 ↔ d.getLsbD (4 + i) = false) := by
  decide +kernel

theorem on_selected (d : BitVec 8) (hj : j < 4) (hnr : nr < 4) :
    (d &&& 0xFC#8 ||| BitVec.ofNat 8 nr).getLsbD (4 + j) = d.getLsbD (4 + j) := by
  obtain ⟨hkeep, hlow⟩ := select_bits nr hnr j hj
  simp [hkeep, hlow]

theorem on_cleared (d : BitVec 8) (hi : i < 4) (hj : j < 4) :
    (d &&& ~~~(0x10#8 <<< i)).getLsbD (4 + j) = (d.getLsbD (4 + j) && !decide (j = i)) := by
  have h8 : 4 + j < 8 := by omega
  rw [BitVec.getLsbD_and, BitVec.getLsbD_not, motor_bit i hi j hj]
  simp [h8]

/-- The mask of `ticks_to_floppy_on`. -/
def wanted (selected : Bool) (nr : Nat) (d : BitVec 8) : BitVec 8 :=
  if selected then 0x10#8 <<< nr ||| d else (0x10#8 <<< nr ||| d) &&& 0xFC#8 ||| BitVec.ofNat 8 nr

/-- The mask differs in the motors only if the one asked for was off, and leaves the
controller enabled. -/
theorem wanted_spec : ∀ selected : Bool, ∀ nr < 4, ∀ d : BitVec 8,
    ((wanted selected nr d ^^^ d) &&& 0xf0#8 ≠ 0 ↔ d.getLsbD (4 + nr) = false) ∧
    (d &&& 0x0C#8 = 0x0C#8 → wanted selected nr d &&& 0x0C#8 = 0x0C#8) := by
  decide +kernel

theorem wanted_on (selected : Bool) (hnr : nr < 4) (hi : i < 4) (d : BitVec 8) :
    (wanted selected nr d).getLsbD (4 + i) = (decide (i = nr) || d.getLsbD (4 + i)) := by
  unfold wanted
  split_ifs
  · rw [BitVec.getLsbD_or, motor_bit nr hnr i hi]
  · rw [on_selected _ hi hnr, BitVec.getLsbD_or, motor_bit nr hnr i hi]

theorem motors_idle : ∀ d : BitVec 8, d &&& 0xf0#8 = 0 → ∀ i < 4, d.getLsbD (4 + i) = false := by
  decide +kernel

/-! ## A tick -/

theorem left_tick (m : Motor) : m.tick.left = m.left - 1 := by
  unfold Motor.tick Motor.left
  split_ifs <;> simp_all <;> omega

theorem timer1_motor (s : State) (hi : i < 4) (hj : j < 4) :
    (s.floppyTimer1 i).motor j = if j = i then (s.motor i).tick else s.motor j := by
  unfold State.floppyTimer1
  simp only [motor_off s.currentDOR i hi]
  by_cases hji : j = i
  · subst hji
    rw [if_pos rfl]
    unfold Motor.tick State.motor State.on
    dsimp only
    split_ifs
    · rfl
    · simp
    · simp [State.outb, on_cleared _ hi hi]
    · simp
  · rw [if_neg hji]
    unfold State.motor State.on
    split_ifs
    · rfl
    · simp [hji]
    · simp [State.outb, on_cleared _ hi hj, hji]
    · simp [hji]

/-- Each drive of the loop has its own round. -/
theorem timers_motor (l : List Nat) (hl : ∀ i ∈ l, i < 4) (hnodup : l.Nodup) (s : State) (hj : j < 4) :
    (l.foldl State.floppyTimer1 s).motor j = if j ∈ l then (s.motor j).tick else s.motor j := by
  induction l generalizing s with
  | nil => rfl
  | cons i l ih =>
    obtain ⟨hi, hl⟩ := List.forall_mem_cons.mp hl
    obtain ⟨hnot, hnodup⟩ := List.nodup_cons.mp hnodup
    rw [List.foldl_cons, ih hl hnodup, timer1_motor s hi hj]
    by_cases hji : j = i
    · subst hji
      simp [hnot]
    · simp [hji]

/-- `do_timer` leaves the loop out only when all motors are off. -/
theorem timer_motor (s : State) (hi : i < 4) : s.doTimer.motor i = (s.motor i).tick := by
  unfold State.doTimer
  split_ifs with hany
  · have hloop := timers_motor (List.range 4) (fun i => List.mem_range.mp) List.nodup_range s hi
    rwa [if_pos (List.mem_range.mpr hi)] at hloop
  · have hoff : (s.motor i).on = false := motors_idle _ (not_not.mp hany) i hi
    rw [Motor.tick, if_pos hoff]

/-! ## The other events -/

/-- The register is what `current_DOR` says, and the controller is enabled. -/
abbrev Told (s : State) : Prop := s.port = s.currentDOR ∧ s.currentDOR &&& 0x0C#8 = 0x0C#8

/-- What `ticks_to_floppy_on` does to the drive asked for, and to the others. -/
structure Requested (s : State) (nr : Nat) (s' : State) (n : Nat) : Prop where
  on    : s'.on nr = true
  mon   : s'.monTimer nr = n
  moff  : s'.moffTimer nr = 10000
  kept  : s.on nr = true → s.monTimer nr ≤ n ∧ n ≤ max (s.monTimer nr) 2
  start : s.on nr = false → n = hz / 2
  other : ∀ i < 4, i ≠ nr → s'.motor i = s.motor i
  told  : Told s → Told s'

theorem on_request (s : State) (hnr : nr < 4) : ∃ s' n, ticksToFloppyOn s nr = some (s', n) ∧ Requested s nr s' n := by
  obtain ⟨hchanged, henabled⟩ := wanted_spec s.selected nr hnr s.currentDOR
  have hbits := fun i (hi : i < 4) => wanted_on s.selected hnr hi s.currentDOR
  unfold ticksToFloppyOn
  rw [if_neg (Nat.not_lt.mpr (Nat.le_of_lt_succ hnr))]
  unfold wanted at hchanged henabled hbits
  dsimp only
  generalize (if s.selected then 0x10#8 <<< nr ||| s.currentDOR
    else (0x10#8 <<< nr ||| s.currentDOR) &&& 0xFC#8 ||| BitVec.ofNat 8 nr) = mask at hchanged henabled hbits ⊢
  have hon : mask.getLsbD (4 + nr) = true := by simpa using hbits nr hnr
  by_cases hsame : mask = s.currentDOR
  · have hwas : s.on nr = true := by rwa [State.on, ← hsame]
    rw [if_neg (not_not.mpr hsame)]
    refine ⟨_, _, rfl, hwas, rfl, Function.update_self _ _ _, fun _ => ⟨Nat.le_refl _, Nat.le_max_left _ _⟩,
      fun hoff => ?_, fun i hi hne => ?_, id⟩
    · rw [hwas] at hoff
      cases hoff
    · simp [State.motor, State.on, hne]
  · rw [if_pos hsame]
    refine ⟨_, _, rfl, hon, Function.update_self _ _ _, Function.update_self _ _ _, fun hwas => ?_,
      fun hoff => if_pos (hchanged.mpr hoff), fun i hi hne => ?_, fun h => ⟨rfl, henabled h.2⟩⟩
    · have hold : ¬ ((mask ^^^ s.currentDOR) &&& 0xf0#8 ≠ 0) := fun hnew => by
        have hoff := hchanged.mp hnew
        rw [State.on, hoff] at hwas
        cases hwas
      rw [if_neg hold]
      split_ifs <;> omega
    · have hbit := hbits i hi
      simp only [hne, decide_false, Bool.false_or] at hbit
      simp [State.motor, State.on, State.outb, hne, hbit]

/-- The state after it is that of the event. -/
theorem next_request (s : State) (hnr : nr < 4) :
    ∃ n, ticksToFloppyOn s nr = some (s.next (.on nr), n) ∧ Requested s nr (s.next (.on nr)) n := by
  obtain ⟨s', n, hreq, hspec⟩ := on_request s hnr
  have hstate : s.next (.on nr) = s' := by simp [State.next, hreq]
  rw [hstate]
  exact ⟨n, hreq, hspec⟩

theorem off_motor (s : State) (hne : i ≠ nr) : (floppyOff s nr).motor i = s.motor i := by
  simp [floppyOff, State.motor, State.on, hne]

theorem select_motor (s : State) (hi : i < 4) (hnr : nr < 4) : (floppyOnInterrupt s nr).motor i = s.motor i := by
  unfold floppyOnInterrupt
  dsimp only
  split_ifs
  · simp only [State.motor, State.on, State.outb, on_selected _ hi hnr]
  · rfl

/-- Drive `i` after an event that is not about it. -/
theorem next_motor (s : State) (hi : i < 4) (he : e.Ok) (hon : e ≠ .on i) (hoff : e ≠ .off i) (htick : e ≠ .tick) :
    (s.next e).motor i = s.motor i := by
  cases e with
  | on nr =>
    obtain ⟨n, -, hspec⟩ := next_request s he
    exact hspec.other i hi fun h => hon (by rw [h])
  | off nr => exact off_motor s fun h => hoff (by rw [h])
  | tick => exact absurd rfl htick
  | select drive => exact select_motor s hi he
  | deselect => rfl
  | reset => rfl

/-! ## Turned off -/

theorem left_next (s : State) (hi : i < 4) (he : e.Ok) (hon : e ≠ .on i) (hoff : e ≠ .off i) :
    ((s.next e).motor i).left = (s.motor i).left - ticks [e] := by
  by_cases htick : e = .tick
  · subst htick
    rw [show s.next .tick = s.doTimer from rfl, timer_motor s hi, left_tick]
    rfl
  · have hnone : ticks [e] = 0 := by simp [ticks, htick]
    rw [next_motor s hi he hon hoff htick, hnone, Nat.sub_zero]

theorem ticks_cons (e : Event) (es : List Event) : ticks (e :: es) = ticks [e] + ticks es := by
  rw [← List.singleton_append, ticks, List.count_append]
  rfl

/-- Without a further request for the drive, its motor is turned off at a known tick, and
stays off. -/
theorem motor_stops (s : State) (hi : i < 4) (hok : ∀ e ∈ es, e.Ok)
    (hquiet : ∀ e ∈ es, e ≠ .on i ∧ e ≠ .off i) :
    (s.run es).on i = true ↔ s.on i = true ∧ ticks es ≤ s.monTimer i + s.moffTimer i := by
  have hleft : ((s.run es).motor i).left = (s.motor i).left - ticks es := by
    induction es generalizing s with
    | nil => rfl
    | cons e es ih =>
      obtain ⟨he, hok⟩ := List.forall_mem_cons.mp hok
      obtain ⟨⟨hon, hoff⟩, hquiet⟩ := List.forall_mem_cons.mp hquiet
      rw [show s.run (e :: es) = (s.next e).run es from rfl, ih _ hok hquiet, left_next s hi he hon hoff,
        ticks_cons e es, Nat.sub_sub]
  have hpos : ∀ s : State, s.on i = true ↔ 0 < (s.motor i).left := by
    intro s
    unfold Motor.left State.motor
    cases s.on i <;> simp
  rw [hpos, hleft]
  unfold Motor.left State.motor
  cases s.on i with
  | false => simp
  | true =>
    simp only [if_true, true_and]
    omega

/-! ## Turned on -/

/-- A motor that is on has turned for half a second, or is waited for. -/
def Up (s : State) (t : Nat → Nat) : Prop := ∀ i < 4, s.on i = true → hz / 2 ≤ t i + s.monTimer i

theorem turned_on {t : Nat → Nat} (hs : s.on i = true) (hn : (s.next e).on i = true) :
    s.turned e t i = t i + ticks [e] := if_pos ⟨hs, hn⟩

/-- The drive before an event that leaves its motor on, if it is not the request itself. -/
theorem next_on (s : State) (hi : i < 4) (he : e.Ok) (hon : e ≠ .on i) (hnext : (s.next e).on i = true) :
    s.on i = true ∧ s.monTimer i ≤ ticks [e] + (s.next e).monTimer i ∧
    (e ≠ .off i → s.moffTimer i ≤ ticks [e] + (s.next e).moffTimer i) := by
  by_cases htick : e = .tick
  · subst htick
    have hmotor : (s.next .tick).motor i = (s.motor i).tick := timer_motor s hi
    have hone : ticks [Event.tick] = 1 := rfl
    unfold Motor.tick State.motor at hmotor
    split_ifs at hmotor with h₁ h₂ h₃ <;> injection hmotor with hb hm hf <;> simp_all <;> omega
  · have hnone : ticks [e] = 0 := by simp [ticks, htick]
    by_cases hoff : e = .off i
    · subst hoff
      exact ⟨hnext, by simp [State.next, floppyOff], fun h => absurd rfl h⟩
    · have hmotor := next_motor s hi he hon hoff htick
      unfold State.motor at hmotor
      injection hmotor with hb hm hf
      exact ⟨hb ▸ hnext, by omega, fun _ => by omega⟩

theorem up_next {t : Nat → Nat} (h : Up s t) (he : e.Ok) : Up (s.next e) (s.turned e t) := by
  intro i hi hnext
  by_cases hon : e = .on i
  · subst hon
    obtain ⟨n, -, hspec⟩ := next_request s hi
    cases hwas : s.on i with
    | true =>
      have hup := h i hi hwas
      have hkept := hspec.kept hwas
      rw [turned_on hwas hnext, hspec.mon]
      omega
    | false =>
      rw [hspec.mon, hspec.start hwas]
      exact Nat.le_add_left _ _
  · obtain ⟨hwas, hmon, -⟩ := next_on s hi he hon hnext
    have hup := h i hi hwas
    rw [turned_on hwas hnext]
    omega

theorem runTurned_append (s : State) (t : Nat → Nat) (es es' : List Event) :
    s.runTurned t (es ++ es') = (s.runTurned t es).1.runTurned (s.runTurned t es).2 es' := by
  induction es generalizing s t with
  | nil => rfl
  | cons e es ih => exact ih _ _

theorem runTurned_run (s : State) (t : Nat → Nat) (es : List Event) : (s.runTurned t es).1 = s.run es := by
  induction es generalizing s t with
  | nil => rfl
  | cons e es ih => exact ih _ _

theorem up_run {t : Nat → Nat} (h : Up s t) (hok : ∀ e ∈ es, e.Ok) :
    Up (s.runTurned t es).1 (s.runTurned t es).2 := by
  induction es generalizing s t with
  | nil => exact h
  | cons e es ih =>
    obtain ⟨he, hok⟩ := List.forall_mem_cons.mp hok
    exact ih (up_next h he) hok

/-- A motor is not turned off while it is in use, for a hundred seconds. -/
theorem keeps_turning {t : Nat → Nat} (hi : i < 4) (hok : ∀ e ∈ es, e.Ok) (hkeep : Event.off i ∉ es)
    (hon : s.on i = true) (hmoff : ticks es ≤ s.moffTimer i) (hlong : ticks es ≤ 10000) :
    (s.runTurned t es).1.on i = true ∧ (s.runTurned t es).2 i = t i + ticks es := by
  induction es generalizing s t with
  | nil => exact ⟨hon, rfl⟩
  | cons e es ih =>
    obtain ⟨he, hok⟩ := List.forall_mem_cons.mp hok
    obtain ⟨hne, hkeep⟩ := not_or.mp (mt List.mem_cons.mpr hkeep)
    rw [ticks_cons e es] at hmoff hlong ⊢
    have hnext : (s.next e).on i = true ∧ ticks es ≤ (s.next e).moffTimer i := by
      by_cases hreq : e = .on i
      · subst hreq
        obtain ⟨n, -, hspec⟩ := next_request s hi
        rw [hspec.moff]
        exact ⟨hspec.on, by omega⟩
      · have hleft := left_next s hi he hreq (Ne.symm hne)
        have hstays : (s.next e).on i = true := by
          unfold Motor.left State.motor at hleft
          rw [if_pos hon] at hleft
          by_contra hstop
          rw [if_neg hstop] at hleft
          dsimp only at hleft
          omega
        have hmoff' := (next_on s hi he hreq hstays).2.2 (Ne.symm hne)
        exact ⟨hstays, by omega⟩
    obtain ⟨hend, hturned⟩ := ih (t := s.turned e t) hok hkeep hnext.1 hnext.2 (by omega)
    refine ⟨hend, ?_⟩
    show ((s.next e).runTurned (s.turned e t) es).2 i = _
    rw [hturned, turned_on hon hnext.1, Nat.add_assoc]

/-- Once the ticks are over that `ticks_to_floppy_on` gives, the motor has been on for half a
second, whatever the other drives do, and it still is. -/
theorem motor_up {es' : List Event} {s' : State} {n : Nat} (hok : ∀ e ∈ es ++ .on nr :: es', e.Ok)
    (hkeep : Event.off nr ∉ es') (hreq : ticksToFloppyOn (boot.run es) nr = some (s', n))
    (hn : n ≤ ticks es') (hlong : ticks es' ≤ 10000) :
    (boot.runTurned (fun _ => 0) (es ++ .on nr :: es')).1.on nr = true ∧
      hz / 2 ≤ (boot.runTurned (fun _ => 0) (es ++ .on nr :: es')).2 nr := by
  obtain ⟨hbefore, hrest⟩ := List.forall_mem_append.mp hok
  obtain ⟨hnr, hafter⟩ := List.forall_mem_cons.mp hrest
  have hidle : Up boot (fun _ => 0) := fun i hi hon => by
    have hnone : ∀ i < 4, boot.on i = false := by decide
    rw [hnone i hi] at hon
    cases hon
  have hup := up_run hidle hbefore
  rw [runTurned_append]
  rw [← runTurned_run boot (fun _ => 0) es] at hreq
  generalize boot.runTurned (fun _ => 0) es = r at hup hreq ⊢
  obtain ⟨n', hreq', hspec⟩ := next_request r.1 hnr
  obtain ⟨rfl, rfl⟩ := Prod.mk.inj (Option.some.inj (hreq.symm.trans hreq'))
  have hready := up_next hup (e := .on nr) hnr nr hnr hspec.on
  obtain ⟨hend, hturned⟩ := keeps_turning (t := r.1.turned (.on nr) r.2) hnr hafter hkeep
    hspec.on (by rw [hspec.moff]; exact hlong) hlong
  rw [hspec.mon] at hready
  exact ⟨hend, Nat.le_trans hready (Nat.le_trans (Nat.add_le_add_left hn _) (Nat.le_of_eq hturned.symm))⟩

/-- The first drive, from the start. -/
theorem motor_up_first : (boot.runTurned (fun _ => 0) ([] ++ .on 0 :: List.replicate 50 .tick)).1.on 0 = true ∧
    hz / 2 ≤ (boot.runTurned (fun _ => 0) ([] ++ .on 0 :: List.replicate 50 .tick)).2 0 :=
  motor_up (n := 50) (by simp [Event.Ok]) (by simp) rfl (by decide) (by decide)

/-! ## The controller -/

/-- The register is what `current_DOR` says, the controller is enabled, and no motor is
left on for longer than its timers can count. -/
structure Kept (s : State) : Prop where
  port    : s.port = s.currentDOR
  enabled : s.currentDOR &&& 0x0C#8 = 0x0C#8
  mon     : ∀ i < 4, s.monTimer i ≤ hz / 2
  moff    : ∀ i < 4, s.moffTimer i ≤ 10000

theorem enabled_rest : ∀ i < 4, ∀ d : BitVec 8, d &&& 0x0C#8 = 0x0C#8 →
    d &&& ~~~(0x10#8 <<< i) &&& 0x0C#8 = 0x0C#8 ∧ (d &&& 0xFC#8 ||| BitVec.ofNat 8 i) &&& 0x0C#8 = 0x0C#8 := by
  decide +kernel

theorem told_timers (l : List Nat) (hl : ∀ i ∈ l, i < 4) (h : Told s) : Told (l.foldl State.floppyTimer1 s) := by
  induction l generalizing s with
  | nil => exact h
  | cons i l ih =>
    obtain ⟨hi, hl⟩ := List.forall_mem_cons.mp hl
    refine ih hl ?_
    unfold State.floppyTimer1
    split_ifs
    · exact h
    · exact h
    · exact ⟨rfl, (enabled_rest i hi _ h.2).1⟩
    · exact h

theorem told_next (h : Told s) (he : e.Ok) : Told (s.next e) := by
  cases e with
  | on nr =>
    obtain ⟨n, -, hspec⟩ := next_request s he
    exact hspec.told h
  | off nr => exact h
  | tick =>
    show Told s.doTimer
    unfold State.doTimer
    split
    · exact told_timers _ (fun i => List.mem_range.mp) h
    · exact h
  | select drive =>
    show Told (floppyOnInterrupt s drive)
    unfold floppyOnInterrupt
    dsimp only
    split
    · exact ⟨rfl, (enabled_rest drive he _ h.2).2⟩
    · exact h
  | deselect => exact h
  | reset => exact ⟨rfl, h.2⟩

theorem timers_next (hmon : s.monTimer i ≤ hz / 2) (hmoff : s.moffTimer i ≤ 10000) (hi : i < 4) (he : e.Ok) :
    (s.next e).monTimer i ≤ hz / 2 ∧ (s.next e).moffTimer i ≤ 10000 := by
  by_cases hon : e = .on i
  · subst hon
    obtain ⟨n, -, hspec⟩ := next_request s hi
    have hhalf : hz / 2 = 50 := rfl
    rw [hspec.mon, hspec.moff]
    cases hwas : s.on i with
    | true =>
      have hkept := hspec.kept hwas
      exact ⟨by omega, Nat.le_refl _⟩
    | false => exact ⟨Nat.le_of_eq (hspec.start hwas), Nat.le_refl _⟩
  · by_cases hoff : e = .off i
    · subst hoff
      refine ⟨hmon, ?_⟩
      show Function.update s.moffTimer i (3 * hz) i ≤ 10000
      rw [Function.update_self]
      decide
    · by_cases htick : e = .tick
      · subst htick
        have hmotor : (s.next .tick).motor i = (s.motor i).tick := timer_motor s hi
        unfold Motor.tick State.motor at hmotor
        dsimp only at hmotor
        split_ifs at hmotor <;> injection hmotor <;> omega
      · have hmotor := next_motor s hi he hon hoff htick
        unfold State.motor at hmotor
        injection hmotor
        omega

theorem kept_next (h : Kept s) (he : e.Ok) : Kept (s.next e) := by
  obtain ⟨hport, henabled⟩ := told_next ⟨h.port, h.enabled⟩ he
  exact ⟨hport, henabled, fun i hi => (timers_next (h.mon i hi) (h.moff i hi) hi he).1,
    fun i hi => (timers_next (h.mon i hi) (h.moff i hi) hi he).2⟩

theorem kept_from (h : Kept s) (hok : ∀ e ∈ es, e.Ok) : Kept (s.run es) := by
  induction es generalizing s with
  | nil => exact h
  | cons e es ih =>
    obtain ⟨he, hok⟩ := List.forall_mem_cons.mp hok
    exact ih (kept_next h he) hok

theorem kept_run (hok : ∀ e ∈ es, e.Ok) : Kept (boot.run es) :=
  kept_from ⟨rfl, rfl, fun _ _ => Nat.zero_le _, fun _ _ => Nat.zero_le _⟩ hok

/-- In every run: after the last event about a drive its motor goes off at a known tick, a
hundred seconds and a half later at most, and the controller is told. -/
theorem motor_stops_told {es' : List Event} (hi : i < 4) (hok : ∀ e ∈ es ++ es', e.Ok)
    (hquiet : ∀ e ∈ es', e ≠ .on i ∧ e ≠ .off i) :
    ((boot.run (es ++ es')).port.getLsbD (4 + i) = true ↔ (boot.run es).on i = true ∧
      ticks es' ≤ (boot.run es).monTimer i + (boot.run es).moffTimer i) ∧
    (boot.run es).monTimer i + (boot.run es).moffTimer i ≤ 10050 := by
  obtain ⟨hbefore, hafter⟩ := List.forall_mem_append.mp hok
  have hkept := kept_run hbefore
  have hhalf : hz / 2 = 50 := rfl
  have hmon := hkept.mon i hi
  have hmoff := hkept.moff i hi
  have hstops := motor_stops (boot.run es) hi hafter hquiet
  rw [(kept_run hok).port, State.run, List.foldl_append]
  exact ⟨hstops, by omega⟩

/-- The first drive, one tick after it was asked for. -/
theorem motor_stops_told_first : ((boot.run ([.on 0] ++ [.tick])).port.getLsbD 4 = true ↔
    (boot.run [.on 0]).on 0 = true ∧ 1 ≤ (boot.run [.on 0]).monTimer 0 + (boot.run [.on 0]).moffTimer 0) ∧
    (boot.run [.on 0]).monTimer 0 + (boot.run [.on 0]).moffTimer 0 ≤ 10050 :=
  @motor_stops_told 0 [.on 0] [.tick] (by decide) (by simp [Event.Ok]) (by simp)

end Linux011.BlkDrv.FloppyMotor
