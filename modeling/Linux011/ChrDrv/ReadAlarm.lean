import Linux011.ChrDrv.TtyRead

/-!
# Terminals — the alarm of `tty_read`

`tty_read` borrows `current->alarm` for its timeout. Here it goes a character at
a time, and between any two steps there may be interrupts, signals and the
`schedule` of a sleep or of a page fault, which takes an alarm whose time has
come.

* `round_goes` — left alone, the steps are those of a round;
* `fine_step`, `spoils_step`, `ruined_step` — what a step does to the alarm;
* `alarm_kept_iff` — the runs that leave the caller's alarm alone.
-/

namespace Linux011.ChrDrv.ReadAlarm

open Linux011.ChrDrv Linux011.ChrDrv.TtyRead

/-! ## Steps -/

/-- The top of the loop, before `GETCH`, after `put_fs_byte`, after the inner loop, and returned. -/
inductive Place
  | top
  | taking
  | putting
  | taken
  | back (ret : Int)
  deriving DecidableEq

/-- A call on its way; `fired` counts how often `schedule` took the alarm of the caller. -/
structure Reading where
  sys   : Sys
  call  : Call
  place : Place
  fired : Nat

/-- After the loop: the alarm is put back. -/
def Reading.leave (r : Reading) : Reading :=
  { r with
    sys   := { r.sys with alarm := r.call.oldalarm }
    place := .back (if r.sys.signal ≠ 0 ∧ r.call.out = [] then -eintr else r.call.out.length) }

/-- The step that `tty_read` makes by itself. -/
def Reading.go (r : Reading) : Reading :=
  let s := r.sys
  let c := r.call
  match r.place with
  | .top =>
    if c.nr = 0 then r.leave
    else if c.flag ∧ s.signal &&& alrmmask ≠ 0 then
      { r with sys := { s with signal := s.signal &&& ~~~alrmmask } }.leave
    else if s.signal ≠ 0 then r.leave
    else if waits s.tty then r
    else { r with place := .taking }
  | .taking =>
    let b := s.tty.secondary.first
    let r := { r with sys := { s with tty := LineCount.take s.tty } }
    if stops r.sys.tty.termios b then { r with place := .back c.out.length }
    else { r with call := { c with out := c.out ++ [b] }, place := .putting }
  | .putting =>
    { r with
      call  := { c with nr := c.nr - 1 }
      place := if c.nr - 1 = 0 ∨ s.tty.secondary.empty then .taken else .taking }
  | .taken =>
    let r := { r with sys := (c.rearm s).1, call := (c.rearm s).2 }
    if s.tty.termios.icanon then if c.out ≠ [] then r.leave else { r with place := .top }
    else if c.minimum ≤ c.out.length then r.leave
    else { r with place := .top }
  | .back _ => r

/-- The part of `schedule` that takes an alarm: that of `tty_read` if `flag` is set, else that of the
caller. -/
def Reading.schedule (r : Reading) : Reading :=
  if r.sys.alarm ≠ 0 ∧ r.sys.alarm < r.sys.jiffies then
    { r with
      sys   := { r.sys with signal := r.sys.signal ||| alrmmask, alarm := 0 }
      fired := if r.call.flag then r.fired else r.fired + 1 }
  else r

/-- What may happen: a step of the call, a `schedule`, or something outside. -/
inductive Act
  | go
  | schedule
  | outside (tty : Tty) (raised : BitVec 32) (ticks : Nat)

def Reading.meets (r : Reading) : Act → Reading
  | .go => r.go
  | .schedule => r.schedule
  | .outside tty raised ticks =>
    { r with sys := { r.sys with tty := tty, signal := r.sys.signal ||| raised, jiffies := r.sys.jiffies + ticks } }

/-- What happens after the return does not matter. -/
def Reading.act (r : Reading) (a : Act) : Reading :=
  match r.place with
  | .back _ => r
  | _ => r.meets a

/-- `tty_read`, up to the loop. -/
def enter (s : Sys) (channel : Nat) (nr : Int) (vtime vmin : Byte) : Reading :=
  match ttyRead s channel nr vtime vmin with
  | .again s c | .asleep s c => ⟨s, c, .top, 0⟩
  | .done t ret out => ⟨t, ⟨0, out, 0, 0, false, s.alarm⟩, .back ret, 0⟩

def run (r : Reading) (acts : List Act) : Reading := acts.foldl Reading.act r

/-- The alarm that was set is set, or has been taken once and is not. -/
def AlarmKept (alarm : Int) (r : Reading) : Prop :=
  r.fired = 0 ∧ r.sys.alarm = alarm ∨ r.fired = 1 ∧ r.sys.alarm = 0

/-- The step returns at an EOF character, though the timeout is set or has covered an alarm. -/
def LeavesTimeout (r : Reading) : Prop :=
  r.place = .taking ∧ stops (LineCount.take r.sys.tty).termios r.sys.tty.secondary.first = true ∧
    r.call.flag = true ∧ (r.sys.alarm ≠ 0 ∨ r.call.oldalarm ≠ 0)

/-- The step puts the alarm back, to leave the loop or to go on. -/
def PutsBack (r : Reading) : Prop :=
  r.place = .top ∧ (r.call.nr = 0 ∨ r.sys.signal ≠ 0) ∨
    r.place = .taken ∧ (r.call.time ≠ 0 ∧ r.sys.tty.termios.icanon = false ∨
      if r.sys.tty.termios.icanon then r.call.out ≠ [] else r.call.minimum ≤ r.call.out.length)

/-- The two ways to spoil the alarm: a timeout left, or an alarm put back that has been taken. -/
def Spoils (r : Reading) (a : Act) : Prop :=
  match a with
  | .go => LeavesTimeout r ∨ PutsBack r ∧ r.fired ≠ 0
  | _ => False

/-- No step of the run does. -/
def Careful (r : Reading) : List Act → Prop
  | [] => True
  | a :: acts => ¬ Spoils r a ∧ Careful (r.act a) acts

instance (r : Reading) : Decidable (LeavesTimeout r) := inferInstanceAs (Decidable (_ ∧ _ ∧ _ ∧ _))

instance (r : Reading) : Decidable (PutsBack r) :=
  inferInstanceAs (Decidable (r.place = .top ∧ (r.call.nr = 0 ∨ r.sys.signal ≠ 0) ∨
    r.place = .taken ∧ (r.call.time ≠ 0 ∧ r.sys.tty.termios.icanon = false ∨
      if r.sys.tty.termios.icanon then r.call.out ≠ [] else r.call.minimum ≤ r.call.out.length)))

instance (r : Reading) (a : Act) : Decidable (Spoils r a) :=
  match a with
  | .go => inferInstanceAs (Decidable (_ ∨ _ ∧ _))
  | .schedule => inferInstanceAs (Decidable False)
  | .outside _ _ _ => inferInstanceAs (Decidable False)

instance decidableCareful (r : Reading) : (acts : List Act) → Decidable (Careful r acts)
  | [] => inferInstanceAs (Decidable True)
  | a :: acts =>
    have := decidableCareful (r.act a) acts
    inferInstanceAs (Decidable (_ ∧ _))

/-- The call has returned. -/
def Returned (r : Reading) : Prop := ∃ ret, r.place = .back ret

variable {r : Reading} {a : Int}

/-! ## What a step does -/

/-- Neither the alarm nor what is said about it changes. -/
structure Quietly (r r' : Reading) : Prop where
  runs     : ¬ Returned r'
  alarm    : r'.sys.alarm = r.sys.alarm
  jiffies  : r.sys.jiffies ≤ r'.sys.jiffies
  fired    : r'.fired = r.fired
  flag     : r'.call.flag = r.call.flag
  oldalarm : r'.call.oldalarm = r.call.oldalarm
  time     : r'.call.time = r.call.time

/-- The alarm is put back, or a timeout is set that ends before it. -/
structure Rearmed (r r' : Reading) : Prop where
  runs     : ¬ Returned r'
  jiffies  : r'.sys.jiffies = r.sys.jiffies
  fired    : r'.fired = r.fired
  oldalarm : r'.call.oldalarm = r.call.oldalarm
  time     : r'.call.time = r.call.time
  armed    : r'.call.flag = true → r.call.oldalarm = 0 ∨ r.call.time + r.sys.jiffies < r.call.oldalarm
  alarm    : r'.sys.alarm = if r'.call.flag = true then r.call.time + r.sys.jiffies else r.call.oldalarm

theorem not_returned {p : Place} (h : r.place = p) (hp : ∀ ret, p ≠ .back ret) : ¬ Returned r := by
  rintro ⟨ret, hback⟩
  exact hp ret (h.symm.trans hback)

/-- Three ways for a step to go. -/
inductive Goes (r r' : Reading) : Prop
  /-- On, with the alarm as it is. -/
  | quiet (h : Quietly r r') (hback : ¬ PutsBack r) (hleft : ¬ LeavesTimeout r)
  /-- Back at an EOF character. -/
  | eof (hback : ¬ PutsBack r) (hret : Returned r')
      (hleft : LeavesTimeout r ↔ r.call.flag = true ∧ (r.sys.alarm ≠ 0 ∨ r.call.oldalarm ≠ 0))
      (halarm : r'.sys.alarm = r.sys.alarm) (hfired : r'.fired = r.fired)
  /-- On, with the alarm set anew. -/
  | rearmed (h : Rearmed r r') (hback : PutsBack r) (hleft : ¬ LeavesTimeout r)
  /-- Back, with the alarm put back. -/
  | leaves (hback : PutsBack r) (hleft : ¬ LeavesTimeout r) (hret : Returned r')
      (halarm : r'.sys.alarm = r.call.oldalarm) (hfired : r'.fired = r.fired)

theorem go_top (h : r.place = .top) : Goes r r.go := by
  have hleft : ¬ LeavesTimeout r := fun hl => Place.noConfusion (h.symm.trans hl.1)
  unfold Reading.go
  rw [h]
  dsimp only
  by_cases hnr : r.call.nr = 0
  · rw [if_pos hnr]
    exact .leaves (Or.inl ⟨h, Or.inl hnr⟩) hleft ⟨_, rfl⟩ rfl rfl
  rw [if_neg hnr]
  by_cases hsig : r.sys.signal = 0
  · have hback : ¬ PutsBack r := by simp [PutsBack, h, hnr, hsig]
    have halrm : ¬ (r.call.flag = true ∧ r.sys.signal &&& alrmmask ≠ 0) := by simp [hsig]
    rw [if_neg halrm, if_neg (not_not.mpr hsig)]
    split
    · exact .quiet ⟨not_returned h (by simp), rfl, Int.le_refl _, rfl, rfl, rfl, rfl⟩ hback hleft
    · exact .quiet ⟨not_returned rfl (by simp), rfl, Int.le_refl _, rfl, rfl, rfl, rfl⟩ hback hleft
  · have hback : PutsBack r := Or.inl ⟨h, Or.inr hsig⟩
    rw [if_pos hsig]
    split <;> exact .leaves hback hleft ⟨_, rfl⟩ rfl rfl

theorem go_taking (h : r.place = .taking) : Goes r r.go := by
  have hback : ¬ PutsBack r := by simp [PutsBack, h]
  unfold Reading.go
  rw [h]
  dsimp only
  by_cases hstop : stops (LineCount.take r.sys.tty).termios r.sys.tty.secondary.first = true
  · rw [if_pos hstop]
    exact .eof hback ⟨_, rfl⟩ ⟨fun hl => hl.2.2, fun hl => ⟨h, hstop, hl⟩⟩ rfl rfl
  · rw [if_neg hstop]
    exact .quiet ⟨not_returned rfl (by simp), rfl, Int.le_refl _, rfl, rfl, rfl, rfl⟩ hback fun hl => hstop hl.2.1

theorem go_putting (h : r.place = .putting) : Goes r r.go := by
  have hleft : ¬ LeavesTimeout r := fun hl => Place.noConfusion (h.symm.trans hl.1)
  have hback : ¬ PutsBack r := by simp [PutsBack, h]
  unfold Reading.go
  rw [h]
  dsimp only
  refine .quiet ⟨not_returned rfl ?_, rfl, Int.le_refl _, rfl, rfl, rfl, rfl⟩ hback hleft
  split <;> simp

/-- After the inner loop the alarm is set anew if there is a timeout and no line mode. -/
theorem rearm_cases (s : Sys) (c : Call) :
    (c.time ≠ 0 ∧ s.tty.termios.icanon = false ∧
      (c.rearm s).2.flag = decide (c.oldalarm = 0 ∨ c.time + s.jiffies < c.oldalarm) ∧
      (c.rearm s).1.alarm = if (c.rearm s).2.flag = true then c.time + s.jiffies else c.oldalarm) ∨
    ¬ (c.time ≠ 0 ∧ s.tty.termios.icanon = false) ∧ c.rearm s = (s, c) := by
  unfold Call.rearm
  by_cases h : c.time ≠ 0 ∧ ¬ s.tty.termios.icanon = true
  · rw [if_pos h]
    exact Or.inl ⟨h.1, by simpa using h.2, rfl, rfl⟩
  · rw [if_neg h]
    exact Or.inr ⟨by simpa using h, rfl⟩

@[simp] theorem rearm_jiffies (s : Sys) (c : Call) : (c.rearm s).1.jiffies = s.jiffies := by
  unfold Call.rearm
  split <;> rfl

@[simp] theorem rearm_oldalarm (s : Sys) (c : Call) : (c.rearm s).2.oldalarm = c.oldalarm := by
  unfold Call.rearm
  split <;> rfl

@[simp] theorem rearm_time (s : Sys) (c : Call) : (c.rearm s).2.time = c.time := by
  unfold Call.rearm
  split <;> rfl

@[simp] theorem rearm_minimum (s : Sys) (c : Call) : (c.rearm s).2.minimum = c.minimum := by
  unfold Call.rearm
  split <;> rfl

theorem go_taken (h : r.place = .taken) : Goes r r.go := by
  have hleft : ¬ LeavesTimeout r := fun hl => Place.noConfusion (h.symm.trans hl.1)
  -- whether the loop is left
  by_cases hends : if r.sys.tty.termios.icanon then r.call.out ≠ [] else r.call.minimum ≤ r.call.out.length
  · have hback : PutsBack r := Or.inr ⟨h, Or.inr hends⟩
    have hgo : ∃ ret, r.go.place = .back ret ∧ r.go.sys.alarm = r.call.oldalarm ∧ r.go.fired = r.fired := by
      unfold Reading.go
      rw [h]
      dsimp only
      split_ifs at hends ⊢ with hcanon
      · exact ⟨_, rfl, by simp [Reading.leave], rfl⟩
      · exact ⟨_, rfl, by simp [Reading.leave], rfl⟩
    obtain ⟨ret, hplace, halarm, hfired⟩ := hgo
    exact .leaves hback hleft ⟨ret, hplace⟩ halarm hfired
  · have hgo : r.go = { r with sys := (r.call.rearm r.sys).1, call := (r.call.rearm r.sys).2, place := .top } := by
      unfold Reading.go
      rw [h]
      dsimp only
      split_ifs at hends ⊢ with hcanon
      · rfl
      · rfl
    rw [hgo]
    rcases rearm_cases r.sys r.call with ⟨htime, hcanon, hflag, halarm⟩ | ⟨hnot, hsame⟩
    · refine .rearmed ⟨not_returned rfl (by simp), by simp, rfl, by simp, by simp, fun harmed => ?_, halarm⟩
        (Or.inr ⟨h, Or.inl ⟨htime, hcanon⟩⟩) hleft
      rw [hflag] at harmed
      exact of_decide_eq_true harmed
    · rw [hsame]
      refine .quiet ⟨not_returned rfl (by simp), rfl, Int.le_refl _, rfl, rfl, rfl, rfl⟩ ?_ hleft
      rintro (⟨htop, -⟩ | ⟨-, hput | hput⟩)
      · exact Place.noConfusion (h.symm.trans htop)
      · exact hnot hput
      · exact hends hput

theorem go_goes (hr : ¬ Returned r) : Goes r r.go := by
  cases hplace : r.place with
  | top => exact go_top hplace
  | taking => exact go_taking hplace
  | putting => exact go_putting hplace
  | taken => exact go_taken hplace
  | back ret => exact absurd ⟨ret, hplace⟩ hr

/-! ## A round, a character at a time -/

/-- The call is where a round comes to. -/
def Shows (p : Progress) (r : Reading) : Prop :=
  match p with
  | .again s c | .asleep s c => r.place = .top ∧ r.sys = s ∧ r.call = c
  | .done s ret out => r.place = .back ret ∧ r.sys = s ∧ r.call.out = out

/-- The inner loop with `n` characters queued. -/
theorem taking_drain (n : Nat) (s : Sys) (c : Call) (k : Nat) (hn : s.tty.secondary.chars = n) (hpos : 0 < n)
    (hnr : 0 < c.nr) :
    ∃ m, Reading.go^[m] ⟨s, c, .taking, k⟩ =
      ⟨{ s with tty := (drain n s.tty c.nr c.out).tty },
        { c with nr := (drain n s.tty c.nr c.out).nr, out := (drain n s.tty c.nr c.out).out },
        if (drain n s.tty c.nr c.out).eof then .back (drain n s.tty c.nr c.out).out.length else .taken, k⟩ := by
  induction n generalizing s c with
  | zero => omega
  | succ n ih =>
    have hne : s.tty.secondary.empty = false := by
      rw [← Bool.not_eq_true, TtyQueue.empty_iff]
      omega
    have hchars : (LineCount.take s.tty).secondary.chars = n := by
      have hlen := congrArg List.length (take_contents hne)
      simp only [List.length_cons, TtyQueue.length_contents] at hlen
      omega
    unfold drain
    dsimp only
    by_cases hstop : stops (LineCount.take s.tty).termios s.tty.secondary.first = true
    · refine ⟨1, ?_⟩
      rw [if_pos hstop, Function.iterate_one]
      unfold Reading.go
      dsimp only
      rw [if_pos hstop]
      rfl
    rw [if_neg hstop]
    have htwo : Reading.go^[2] ⟨s, c, .taking, k⟩ =
        ⟨{ s with tty := LineCount.take s.tty }, { c with nr := c.nr - 1, out := c.out ++ [s.tty.secondary.first] },
          if c.nr - 1 = 0 ∨ (LineCount.take s.tty).secondary.empty then .taken else .taking, k⟩ := by
      show Reading.go (Reading.go _) = _
      have hone : Reading.go ⟨s, c, .taking, k⟩ =
          ⟨{ s with tty := LineCount.take s.tty }, { c with out := c.out ++ [s.tty.secondary.first] }, .putting, k⟩ := by
        unfold Reading.go
        dsimp only
        rw [if_neg hstop]
      rw [hone]
      rfl
    by_cases hlast : c.nr - 1 = 0 ∨ (LineCount.take s.tty).secondary.empty = true
    · refine ⟨2, ?_⟩
      rw [htwo, if_pos hlast, if_pos hlast]
      rfl
    · have hmore : ¬ (LineCount.take s.tty).secondary.empty = true := fun h => hlast (Or.inr h)
      rw [TtyQueue.empty_iff] at hmore
      obtain ⟨m, hm⟩ := ih { s with tty := LineCount.take s.tty }
        { c with nr := c.nr - 1, out := c.out ++ [s.tty.secondary.first] } hchars (by omega)
        (Nat.pos_of_ne_zero fun h => hlast (Or.inl h))
      refine ⟨m + 2, ?_⟩
      rw [Function.iterate_add_apply, htwo, if_neg hlast, if_neg hlast]
      exact hm

/-- **Left alone** the steps are those of a round. -/
theorem round_goes (s : Sys) (c : Call) (k : Nat) : ∃ m, Shows (TtyRead.round s c) (Reading.go^[m] ⟨s, c, .top, k⟩) := by
  by_cases hd : Drains s c
  · obtain ⟨m, hm⟩ := taking_drain s.tty.secondary.chars s c k rfl (chars_pos hd.2.2) (Nat.pos_of_ne_zero hd.1)
    obtain ⟨hnr, hsig, hwait⟩ := hd
    have halrm : ¬ (c.flag = true ∧ s.signal &&& alrmmask ≠ 0) := by simp [hsig]
    have hgo : Reading.go ⟨s, c, .top, k⟩ = ⟨s, c, .taking, k⟩ := by
      unfold Reading.go
      dsimp only
      rw [if_neg hnr, if_neg halrm, if_neg (not_not.mpr hsig), if_neg (by simp [hwait])]
    unfold TtyRead.round
    rw [if_neg hnr, if_neg halrm, if_neg (not_not.mpr hsig), if_neg (by simp [hwait])]
    dsimp only
    generalize drain s.tty.secondary.chars s.tty c.nr c.out = d at hm ⊢
    by_cases heof : d.eof = true
    · refine ⟨m + 1, ?_⟩
      rw [Function.iterate_add_apply, Function.iterate_one, hgo, hm, if_pos heof, if_pos heof]
      exact ⟨rfl, rfl, rfl⟩
    · refine ⟨1 + (m + 1), ?_⟩
      rw [Function.iterate_add_apply, Function.iterate_add_apply, Function.iterate_one, hgo, hm, if_neg heof, if_neg heof]
      unfold Reading.go
      simp only [rearm_tty, rearm_out, rearm_minimum]
      by_cases hcanon : d.tty.termios.icanon = true
      · rw [if_pos hcanon, if_pos hcanon]
        by_cases hout : d.out ≠ []
        · rw [if_pos hout, if_pos hout]
          exact ⟨rfl, rfl, rfl⟩
        · rw [if_neg hout, if_neg hout]
          exact ⟨rfl, rfl, rfl⟩
      · rw [if_neg hcanon, if_neg hcanon]
        by_cases hmin : c.minimum ≤ d.out.length
        · rw [if_pos hmin, if_pos hmin]
          exact ⟨rfl, rfl, rfl⟩
        · rw [if_neg hmin, if_neg hmin]
          exact ⟨rfl, rfl, rfl⟩
  · refine ⟨1, ?_⟩
    rw [Function.iterate_one]
    unfold Reading.go TtyRead.round
    dsimp only
    by_cases hnr : c.nr = 0
    · rw [if_pos hnr, if_pos hnr]
      exact ⟨rfl, rfl, rfl⟩
    rw [if_neg hnr, if_neg hnr]
    by_cases halrm : c.flag = true ∧ s.signal &&& alrmmask ≠ 0
    · rw [if_pos halrm, if_pos halrm]
      exact ⟨rfl, rfl, rfl⟩
    rw [if_neg halrm, if_neg halrm]
    by_cases hsig : s.signal = 0
    · have hwait : waits s.tty = true := by
        by_contra hnot
        exact hd ⟨hnr, hsig, by simpa using hnot⟩
      rw [if_neg (not_not.mpr hsig), if_neg (not_not.mpr hsig), if_pos hwait, if_pos hwait]
      split <;> exact ⟨rfl, rfl, rfl⟩
    · rw [if_pos hsig, if_pos hsig]
      exact ⟨rfl, rfl, rfl⟩

/-! ## The alarm -/

/-- The alarm `a` of the caller has been taken, and its time is over. -/
def Over (a : Int) (r : Reading) : Prop := a ≠ 0 ∧ a < r.sys.jiffies

/-- The alarm is that of the caller, or a timeout that is not. -/
structure Sound (a : Int) (r : Reading) : Prop where
  old   : r.call.oldalarm = a
  time  : 0 ≤ r.call.time
  armed : r.call.flag = true → r.fired = 0 ∧ (r.sys.alarm = a → a = 0)
  kept  : r.call.flag = false → AlarmKept a r
  past  : r.fired ≠ 0 → Over a r

/-- An alarm that was taken has been put back. -/
structure Spoilt (a : Int) (r : Reading) : Prop where
  old   : r.call.oldalarm = a
  time  : 0 ≤ r.call.time
  flag  : r.call.flag = false
  past  : Over a r
  twice : 1 ≤ r.fired ∧ (r.sys.alarm = a ∨ 2 ≤ r.fired)

/-- So far nothing is spoilt. -/
def Fine (a : Int) (r : Reading) : Prop := (Returned r → AlarmKept a r) ∧ (¬ Returned r → Sound a r)

def Ruined (a : Int) (r : Reading) : Prop := (Returned r → ¬ AlarmKept a r) ∧ (¬ Returned r → Spoilt a r)

theorem act_returned (h : Returned r) (x : Act) : r.act x = r := by
  obtain ⟨ret, hret⟩ := h
  unfold Reading.act
  rw [hret]

theorem act_running (h : ¬ Returned r) (x : Act) : r.act x = r.meets x := by
  unfold Reading.act
  cases hplace : r.place with
  | back ret => exact absurd ⟨ret, hplace⟩ h
  | _ => rfl

theorem Fine.of_running (hr : ¬ Returned r) (S : Sound a r) : Fine a r := ⟨fun h => absurd h hr, fun _ => S⟩

theorem Fine.of_returned (hr : Returned r) (K : AlarmKept a r) : Fine a r := ⟨fun _ => K, fun h => absurd hr h⟩

theorem Ruined.of_running (hr : ¬ Returned r) (S : Spoilt a r) : Ruined a r := ⟨fun h => absurd h hr, fun _ => S⟩

theorem Ruined.of_returned (hr : Returned r) (K : ¬ AlarmKept a r) : Ruined a r := ⟨fun _ => K, fun h => absurd hr h⟩

theorem Sound.quiet {r' : Reading} (S : Sound a r) (Q : Quietly r r') : Sound a r' where
  old   := Q.oldalarm.trans S.old
  time  := Q.time ▸ S.time
  armed := by
    rw [Q.flag, Q.fired, Q.alarm]
    exact S.armed
  kept  := by
    unfold AlarmKept
    rw [Q.flag, Q.fired, Q.alarm]
    exact S.kept
  past  := by
    rw [Q.fired]
    exact fun h => ⟨(S.past h).1, Int.lt_of_lt_of_le (S.past h).2 Q.jiffies⟩

theorem Spoilt.quiet {r' : Reading} (S : Spoilt a r) (Q : Quietly r r') : Spoilt a r' where
  old   := Q.oldalarm.trans S.old
  time  := Q.time ▸ S.time
  flag  := Q.flag.trans S.flag
  past  := ⟨S.past.1, Int.lt_of_lt_of_le S.past.2 Q.jiffies⟩
  twice := by
    rw [Q.fired, Q.alarm]
    exact S.twice

/-- A timeout is over before the alarm is. -/
theorem Rearmed.flag_of_over {r' : Reading} (R : Rearmed r r') (hover : Over r.call.oldalarm r) (htime : 0 ≤ r.call.time) :
    r'.call.flag = false := by
  rw [← Bool.not_eq_true]
  intro hflag
  have hbefore := R.armed hflag
  obtain ⟨hne, hlt⟩ := hover
  omega

/-- An alarm that is put back after it was taken. -/
theorem not_kept_of_back (hne : a ≠ 0) (hfired : r.fired ≠ 0) (halarm : r.sys.alarm = a) : ¬ AlarmKept a r := by
  rintro (⟨h0, -⟩ | ⟨-, h0⟩)
  · exact hfired h0
  · exact hne (halarm.symm.trans h0)

/-- **A step** that does not spoil the alarm. -/
theorem sound_go (hr : ¬ Returned r) (S : Sound a r) (hgood : ¬ Spoils r .go) : Fine a r.go := by
  cases go_goes hr with
  | quiet Q => exact .of_running Q.runs (S.quiet Q)
  | eof hback hret hleft halarm hfired =>
    refine .of_returned hret ?_
    unfold AlarmKept
    rw [halarm, hfired]
    cases hflag : r.call.flag with
    | false => exact S.kept hflag
    | true =>
      have hnone : ¬ (r.sys.alarm ≠ 0 ∨ r.call.oldalarm ≠ 0) := fun h => hgood (Or.inl (hleft.mpr ⟨hflag, h⟩))
      rw [S.old] at hnone
      have hfired0 := (S.armed hflag).1
      omega
  | rearmed R hback hleft =>
    have hfired : r.fired = 0 := by
      by_contra h
      exact hgood (Or.inr ⟨hback, h⟩)
    refine .of_running R.runs ⟨R.oldalarm.trans S.old, R.time ▸ S.time, fun hflag => ?_, fun hflag => ?_, fun h => ?_⟩
    · have hbefore := R.armed hflag
      have halarm := R.alarm
      rw [if_pos hflag] at halarm
      rw [S.old] at hbefore
      rw [R.fired]
      omega
    · have halarm := R.alarm
      rw [if_neg (by simp [hflag]), S.old] at halarm
      exact Or.inl ⟨R.fired.trans hfired, halarm⟩
    · exact absurd (R.fired.trans hfired) h
  | leaves hback hleft hret halarm hfired =>
    have hnone : r.fired = 0 := by
      by_contra h
      exact hgood (Or.inr ⟨hback, h⟩)
    exact .of_returned hret (Or.inl ⟨hfired.trans hnone, halarm.trans S.old⟩)

/-- A step that spoils it. -/
theorem spoils_go (hr : ¬ Returned r) (S : Sound a r) (hbad : Spoils r .go) : Ruined a r.go := by
  have hover : PutsBack r ∧ r.fired ≠ 0 → Over a r := fun h => S.past h.2
  cases go_goes hr with
  | quiet Q hback hleft => exact absurd hbad fun h => h.elim hleft fun h => hback h.1
  | eof hback hret hleft halarm hfired =>
    have hl : LeavesTimeout r := hbad.elim id fun h => absurd h.1 hback
    obtain ⟨hflag, hset⟩ := hleft.mp hl
    obtain ⟨hnone, hother⟩ := S.armed hflag
    rw [S.old] at hset
    refine .of_returned hret ?_
    unfold AlarmKept
    rw [halarm, hfired]
    omega
  | rearmed R hback hleft =>
    have hfired : r.fired ≠ 0 := (hbad.resolve_left hleft).2
    obtain ⟨hne, hlt⟩ := S.past hfired
    have hflag := R.flag_of_over (S.old.symm ▸ ⟨hne, hlt⟩) S.time
    have halarm := R.alarm
    rw [if_neg (by simp [hflag]), S.old] at halarm
    refine .of_running R.runs ⟨R.oldalarm.trans S.old, R.time ▸ S.time, hflag, ⟨hne, R.jiffies ▸ hlt⟩, ?_, Or.inl halarm⟩
    rw [R.fired]
    omega
  | leaves hback hleft hret halarm hfired =>
    have htaken : r.fired ≠ 0 := (hbad.resolve_left hleft).2
    exact .of_returned hret (not_kept_of_back (S.past htaken).1 (hfired ▸ htaken) (halarm.trans S.old))

/-- What is spoilt stays so. -/
theorem spoilt_go (hr : ¬ Returned r) (S : Spoilt a r) : Ruined a r.go := by
  obtain ⟨hone, htwice⟩ := S.twice
  have hne := S.past.1
  cases go_goes hr with
  | quiet Q => exact .of_running Q.runs (S.quiet Q)
  | eof hback hret hleft halarm hfired =>
    refine .of_returned hret ?_
    unfold AlarmKept
    rw [halarm, hfired]
    omega
  | rearmed R =>
    have hflag := R.flag_of_over (S.old.symm ▸ S.past) S.time
    have halarm := R.alarm
    rw [if_neg (by simp [hflag]), S.old] at halarm
    exact .of_running R.runs ⟨R.oldalarm.trans S.old, R.time ▸ S.time, hflag, ⟨hne, R.jiffies ▸ S.past.2⟩,
      R.fired ▸ hone, Or.inl halarm⟩
  | leaves hback hleft hret halarm hfired =>
    exact .of_returned hret (not_kept_of_back hne (by omega) (halarm.trans S.old))

/-- `schedule` takes the alarm of the caller once. -/
theorem Sound.schedule (S : Sound a r) : Sound a r.schedule := by
  unfold Reading.schedule
  split_ifs with hdue hflag
  · have hnone := (S.armed hflag).1
    refine ⟨S.old, S.time, fun _ => ⟨hnone, fun h => h.symm⟩, fun h => ?_, fun h => absurd hnone h⟩
    exact absurd (hflag.symm.trans h) (by simp)
  · rw [Bool.not_eq_true] at hflag
    have hkept := S.kept hflag
    have hset : r.fired = 0 ∧ r.sys.alarm = a := hkept.resolve_right fun h => hdue.1 h.2
    refine ⟨S.old, S.time, fun h => ?_, fun _ => Or.inr ⟨by rw [hset.1], rfl⟩, fun _ => ?_⟩
    · exact absurd (hflag.symm.trans h) (by simp)
    · exact hset.2 ▸ hdue
  · exact S

theorem Spoilt.schedule (S : Spoilt a r) : Spoilt a r.schedule := by
  unfold Reading.schedule
  split_ifs with hdue hflag
  · exact absurd (S.flag.symm.trans hflag) (by simp)
  · obtain ⟨hone, -⟩ := S.twice
    exact ⟨S.old, S.time, S.flag, S.past, Nat.le_succ_of_le hone, Or.inr (Nat.succ_le_succ hone)⟩
  · exact S

theorem schedule_running (hr : ¬ Returned r) : ¬ Returned r.schedule := by
  unfold Reading.schedule
  split
  · exact hr
  · exact hr

theorem outside_quiet (hr : ¬ Returned r) (tty : Tty) (raised : BitVec 32) (ticks : Nat) :
    Quietly r (r.meets (.outside tty raised ticks)) :=
  ⟨hr, rfl, Int.le_add_of_nonneg_right (Int.natCast_nonneg ticks), rfl, rfl, rfl, rfl⟩

theorem fine_step (F : Fine a r) (x : Act) (hgood : ¬ Spoils r x) : Fine a (r.act x) := by
  by_cases hr : Returned r
  · rw [act_returned hr]
    exact F
  have S := F.2 hr
  rw [act_running hr]
  cases x with
  | go => exact sound_go hr S hgood
  | schedule => exact .of_running (schedule_running hr) S.schedule
  | outside tty raised ticks => exact .of_running hr (S.quiet (outside_quiet hr tty raised ticks))

theorem spoils_step (F : Fine a r) (x : Act) (hbad : Spoils r x) : Ruined a (r.act x) := by
  cases x with
  | go =>
    have hr : ¬ Returned r := by
      rintro ⟨ret, hret⟩
      rcases hbad with ⟨hplace, -⟩ | ⟨⟨hplace, -⟩ | ⟨hplace, -⟩, -⟩ <;>
        exact Place.noConfusion (hret.symm.trans hplace)
    rw [act_running hr]
    exact spoils_go hr (F.2 hr) hbad
  | schedule => exact hbad.elim
  | outside tty raised ticks => exact hbad.elim

theorem ruined_step (R : Ruined a r) (x : Act) : Ruined a (r.act x) := by
  by_cases hr : Returned r
  · rw [act_returned hr]
    exact R
  have S := R.2 hr
  rw [act_running hr]
  cases x with
  | go => exact spoilt_go hr S
  | schedule => exact .of_running (schedule_running hr) S.schedule
  | outside tty raised ticks => exact .of_running hr (S.quiet (outside_quiet hr tty raised ticks))

theorem ruined_run (R : Ruined a r) (acts : List Act) : Ruined a (run r acts) := by
  induction acts generalizing r with
  | nil => exact R
  | cons x acts ih => exact ih (ruined_step R x)

/-- Over a whole run: it is fine as long as every step is. -/
theorem run_cases (F : Fine a r) (acts : List Act) :
    Careful r acts ∧ Fine a (run r acts) ∨ ¬ Careful r acts ∧ Ruined a (run r acts) := by
  induction acts generalizing r with
  | nil => exact Or.inl ⟨trivial, F⟩
  | cons x acts ih =>
    by_cases hbad : Spoils r x
    · exact Or.inr ⟨fun h => h.1 hbad, ruined_run (spoils_step F x hbad) acts⟩
    · rcases ih (fine_step F x hbad) with ⟨hcare, hfine⟩ | ⟨hcare, hruined⟩
      · exact Or.inl ⟨⟨hbad, hcare⟩, hfine⟩
      · exact Or.inr ⟨fun h => hcare h.2, hruined⟩

theorem fine_enter (s : Sys) (channel : Nat) (nr : Int) (vtime vmin : Byte) :
    Fine s.alarm (enter s channel nr vtime vmin) := by
  have htime : (0 : Int) ≤ 10 * (vtime.toNat : Int) := by omega
  unfold enter ttyRead
  by_cases hbad : 2 < channel ∨ nr < 0
  · rw [if_pos hbad]
    exact .of_returned ⟨_, rfl⟩ (Or.inl ⟨rfl, rfl⟩)
  rw [if_neg hbad]
  dsimp only
  by_cases hborrow : 10 * (vtime.toNat : Int) ≠ 0 ∧ vmin = 0
  · rw [if_pos hborrow]
    refine .of_running (not_returned rfl (by simp)) ⟨rfl, htime, fun hflag => ⟨rfl, fun h => ?_⟩, fun hflag => ?_, fun h => absurd rfl h⟩
    · have hbefore := of_decide_eq_true hflag
      dsimp only at h hflag
      rw [if_pos hflag] at h
      omega
    · refine Or.inl ⟨rfl, ?_⟩
      dsimp only at hflag ⊢
      rw [hflag, if_neg (by simp)]
  · rw [if_neg hborrow]
    refine .of_running (not_returned rfl (by simp)) ⟨rfl, htime, fun hflag => ?_, fun _ => Or.inl ⟨rfl, rfl⟩, fun h => absurd rfl h⟩
    exact absurd hflag (by simp)

/-- **The alarm of the caller** is left alone by a call of `tty_read` that returns, exactly if no step
of it returns at an EOF character with the timeout on, or puts the alarm back after it was taken. -/
theorem alarm_kept_iff (s : Sys) (channel : Nat) (nr : Int) (vtime vmin : Byte) (acts : List Act)
    (hret : Returned (run (enter s channel nr vtime vmin) acts)) :
    AlarmKept s.alarm (run (enter s channel nr vtime vmin) acts) ↔
      Careful (enter s channel nr vtime vmin) acts := by
  rcases run_cases (fine_enter s channel nr vtime vmin) acts with ⟨hcare, hfine⟩ | ⟨hcare, hruined⟩
  · exact iff_of_true (hfine.1 hret) hcare
  · exact iff_of_false (hruined.1 hret) hcare

/-- The console in line mode, with bytes queued and an alarm set. -/
def console (bytes : List Byte) (lines : Nat) (alarm : Int) : Sys := { queuedTty bytes lines with alarm := alarm }

/-- A line is read while an alarm is set. -/
theorem alarm_kept_line :
    AlarmKept 500 (run (enter (console [97, 10] 1 500) 0 100 0 1) [.go, .go, .go, .schedule, .go, .go, .go]) := by
  have hback : Returned (run (enter (console [97, 10] 1 500) 0 100 0 1) [.go, .go, .go, .schedule, .go, .go, .go]) :=
    ⟨2, by decide +kernel⟩
  exact (alarm_kept_iff _ _ _ _ _ _ hback).mpr (by decide +kernel)

/-- VMIN is 0, VTIME 1, and an EOF character is queued: the call returns with its timeout on. -/
theorem timeout_left :
    (run (enter (console [4] 1 0) 0 100 1 0) [.go, .go]).place = .back 0 ∧
      (run (enter (console [4] 1 0) 0 100 1 0) [.go, .go]).sys.alarm = 10 ∧
      ¬ AlarmKept 0 (run (enter (console [4] 1 0) 0 100 1 0) [.go, .go]) := by
  have halarm : (run (enter (console [4] 1 0) 0 100 1 0) [.go, .go]).sys.alarm = 10 := by decide +kernel
  refine ⟨by decide +kernel, halarm, ?_⟩
  unfold AlarmKept
  rw [halarm]
  omega

/-- An alarm at 1 that is taken while the call sleeps is put back. -/
example : let r := run (enter (console [] 0 1) 0 100 0 1) [.go, .outside (console [] 0 1).tty 0 2, .schedule, .go]
    r.place = .back (-eintr) ∧ r.fired = 1 ∧ r.sys.alarm = 1 := by
  decide +kernel

end Linux011.ChrDrv.ReadAlarm
