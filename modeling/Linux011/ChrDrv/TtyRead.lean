import Linux011.ChrDrv.LineCount

/-!
# Terminals — `tty_read`

The loop that waits for input and the inner loop that takes it out of the
secondary queue. In canonical mode it is to give the lines that have been ended,
one call at a time, and to sleep while there is none.

* `drain_spec` — the inner loop takes what there is, up to an EOF character;
* `delivers_ended_lines` — these are characters of lines that have been ended,
  exactly if no more are asked for, the queue has no others, or there is an EOF
  character;
* `never_spins` — a round of the loop sleeps, leaves the loop or takes a
  character, exactly if it does not find only a line without an end;
* `call_ends_iff` — a call that is left alone sleeps or returns, exactly if no
  round finds that.

Interrupts and other tasks may do anything between two rounds and while the
call is asleep.
-/

namespace Linux011.ChrDrv.TtyRead

open Linux011.ChrDrv

def eintr : Int := 4
def alrmmask : BitVec 32 := 1#32 <<< 13

/-- A terminal, the task that reads from it, and the clock. -/
structure Sys where
  tty     : Tty
  signal  : BitVec 32
  alarm   : Int
  jiffies : Int

/-- The variables of `tty_read`; `out` is what is in the buffer. -/
structure Call where
  nr       : Nat
  out      : List Byte
  time     : Int
  minimum  : Nat
  flag     : Bool
  oldalarm : Int

/-- A call at the top of its loop, asleep, or back with what it returns. -/
inductive Progress
  | again (s : Sys) (c : Call)
  | asleep (s : Sys) (c : Call)
  | done (s : Sys) (ret : Int) (out : List Byte)

/-- `sleep_if_empty` goes to sleep. -/
def Sys.sleeps (s : Sys) : Bool := s.signal = 0 && s.tty.secondary.empty

/-- The test before `sleep_if_empty`. -/
def waits (tty : Tty) : Bool :=
  tty.secondary.empty || (tty.termios.icanon && tty.secondary.data == 0 && 20 < tty.secondary.left)

/-- `c==EOF_CHAR(tty) && L_CANON(tty)`. -/
def stops (t : Termios) (c : Byte) : Bool := sameChar c t.eof && t.icanon

/-- What the inner loop leaves, and whether it came to an EOF character. -/
structure Drain where
  tty : Tty
  nr  : Nat
  out : List Byte
  eof : Bool

/-- The inner loop, `n` characters queued. -/
def drain : Nat → Tty → Nat → List Byte → Drain
  | 0, tty, nr, out => ⟨tty, nr, out, false⟩
  | n + 1, tty, nr, out =>
    let c := tty.secondary.first
    let tty := LineCount.take tty
    if stops tty.termios c then ⟨tty, nr, out, true⟩
    else if nr - 1 = 0 ∨ tty.secondary.empty then ⟨tty, nr - 1, out ++ [c], false⟩
    else drain n tty (nr - 1) (out ++ [c])

/-- After the loop. -/
def Call.finish (c : Call) (s : Sys) : Progress :=
  .done { s with alarm := c.oldalarm }
    (if s.signal ≠ 0 ∧ c.out = [] then -eintr else c.out.length) c.out

/-- The alarm of `VTIME`. -/
def Call.rearm (c : Call) (s : Sys) : Sys × Call :=
  if c.time ≠ 0 ∧ ¬ s.tty.termios.icanon then
    let flag := decide (c.oldalarm = 0 ∨ c.time + s.jiffies < c.oldalarm)
    ({ s with alarm := if flag then c.time + s.jiffies else c.oldalarm }, { c with flag := flag })
  else (s, c)

/-- A round of the loop. -/
def round (s : Sys) (c : Call) : Progress :=
  if c.nr = 0 then c.finish s
  else if c.flag ∧ s.signal &&& alrmmask ≠ 0 then
    c.finish { s with signal := s.signal &&& ~~~alrmmask }
  else if s.signal ≠ 0 then c.finish s
  else if waits s.tty then if s.sleeps then .asleep s c else .again s c
  else
    let d := drain s.tty.secondary.chars s.tty c.nr c.out
    let s := { s with tty := d.tty }
    if d.eof then .done s d.out.length d.out
    else
      let (s, c) := { c with nr := d.nr, out := d.out }.rearm s
      if s.tty.termios.icanon then if c.out ≠ [] then c.finish s else .again s c
      else if c.minimum ≤ c.out.length then c.finish s
      else .again s c

/-- `tty_read`, up to the loop. -/
def ttyRead (s : Sys) (channel : Nat) (nr : Int) (vtime vmin : Byte) : Progress :=
  if 2 < channel ∨ nr < 0 then .done s (-1) []
  else
    let time : Int := 10 * vtime.toNat
    if time ≠ 0 ∧ vmin = 0 then
      let flag := decide (s.alarm = 0 ∨ time + s.jiffies < s.alarm)
      .again { s with alarm := if flag then time + s.jiffies else s.alarm }
        ⟨nr.toNat, [], time, min 1 nr.toNat, flag, s.alarm⟩
    else .again s ⟨nr.toNat, [], time, min vmin.toNat nr.toNat, false, s.alarm⟩

/-- The call goes on. -/
def Progress.next : Progress → Progress
  | .again s c => round s c
  | p => p

/-- The call is asleep or has returned. -/
def Progress.rests : Progress → Bool
  | .again _ _ => false
  | _ => true

/-- The terminal. -/
def Progress.tty : Progress → Tty
  | .again s _ | .asleep s _ | .done s _ _ => s.tty

/-- The buffer. -/
def Progress.out : Progress → List Byte
  | .again _ c | .asleep _ c => c.out
  | .done _ _ out => out

/-! ## What is meant -/

/-- The characters that a round takes out of the queue are of lines ended by a newline or
an EOF character, and an ERASE or a KILL would have left them there. -/
def Firm (s : Sys) (c : Call) : Prop :=
  let queued := s.tty.secondary.contents
  ∃ n, (round s c).tty.secondary.contents = queued.drop n ∧
    (round s c).out = c.out ++ (queued.take n).filter (fun b => !stops s.tty.termios b) ∧
    queued.take n <+: killTail s.tty.termios.isEnd queued ∧
    queued.take n <+: killTail s.tty.termios.ends queued ∧
    queued.take n <+: eraseLast s.tty.termios.ends queued

/-- The round takes the branch with `sleep_if_empty`. -/
def Waiting (s : Sys) (c : Call) : Prop :=
  c.nr ≠ 0 ∧ s.signal = 0 ∧ waits s.tty = true

/-- The round comes to the inner loop. -/
def Drains (s : Sys) (c : Call) : Prop := c.nr ≠ 0 ∧ s.signal = 0 ∧ waits s.tty = false

/-- No more is asked for than the lines that have been ended, or there is nothing else queued,
or there is an EOF character. -/
def Within (s : Sys) (c : Call) : Prop :=
  let queued := s.tty.secondary.contents
  let lines := killTail s.tty.termios.ends queued
  c.nr ≤ lines.length ∨ lines = queued ∨ ∃ b ∈ queued, stops s.tty.termios b = true

/-- If it is to wait it sleeps, and it does not come to the top of the loop without having
taken a character. -/
def Serves (s : Sys) (c : Call) : Prop :=
  (Waiting s c → round s c = .asleep s c) ∧ ∀ s' c', round s c = .again s' c' → c'.nr < c.nr

/-- A line without an end is all there is. -/
def Unfinished (tty : Tty) : Prop :=
  tty.termios.icanon = true ∧ tty.secondary.empty = false ∧ tty.secondary.data = 0 ∧
    20 < tty.secondary.left

/-- That is what the round finds. -/
def Stuck (s : Sys) (c : Call) : Prop := c.nr ≠ 0 ∧ s.signal = 0 ∧ Unfinished s.tty

/-! ## The inner loop -/

/-- How many of the characters queued are taken if `nr` are asked for. -/
def reach (stop : Byte → Bool) : Nat → List Byte → Nat
  | 0, _ => 0
  | _, [] => 0
  | nr + 1, c :: queued => if stop c then 1 else reach stop nr queued + 1

variable {stop : Byte → Bool} {tty : Tty} {s : Sys} {c : Call}

theorem reach_le_nr (nr : Nat) (queued : List Byte) : reach stop nr queued ≤ nr := by
  induction nr generalizing queued with
  | zero => simp [reach]
  | succ nr ih =>
    cases queued with
    | nil => simp [reach]
    | cons b queued =>
      have := ih queued
      simp only [reach]
      split <;> omega

theorem reach_le_length (nr : Nat) (queued : List Byte) : reach stop nr queued ≤ queued.length := by
  induction nr generalizing queued with
  | zero => simp [reach]
  | succ nr ih =>
    cases queued with
    | nil => simp [reach]
    | cons b queued =>
      have := ih queued
      simp only [reach, List.length_cons]
      split <;> omega

/-- Without a stop it is all that is asked for, or all there is. -/
theorem reach_clear {nr : Nat} {queued : List Byte} (h : ∀ b ∈ queued, stop b = false) :
    reach stop nr queued = min nr queued.length := by
  induction nr generalizing queued with
  | zero => simp [reach]
  | succ nr ih =>
    cases queued with
    | nil => simp [reach]
    | cons b queued =>
      have hb : stop b = false := h b (by simp)
      have hrest : ∀ b ∈ queued, stop b = false := fun b hb => h b (by simp [hb])
      simp [reach, hb, ih hrest]

/-- It does not go past a stop. -/
theorem reach_le_stop (nr : Nat) (front back : List Byte) {b : Byte} (h : stop b = true) :
    reach stop nr (front ++ b :: back) ≤ front.length + 1 := by
  induction front generalizing nr with
  | nil =>
    cases nr with
    | zero => simp [reach]
    | succ nr => simp [reach, h]
  | cons a front ih =>
    cases nr with
    | zero => simp [reach]
    | succ nr =>
      have := ih nr
      simp only [List.cons_append, reach, List.length_cons]
      split <;> omega

@[simp] theorem take_termios (tty : Tty) : (LineCount.take tty).termios = tty.termios := by
  unfold LineCount.take
  dsimp only
  split <;> rfl

theorem take_contents (h : tty.secondary.empty = false) :
    tty.secondary.contents = tty.secondary.first :: (LineCount.take tty).secondary.contents := by
  have hrest : (LineCount.take tty).secondary.contents = tty.secondary.getch.contents := by
    unfold LineCount.take
    dsimp only
    split
    · exact LineCount.contents_data _ _
    · rfl
  rw [hrest, TtyQueue.contents_getch h]

/-- **The inner loop** takes what there is, up to an EOF character. -/
theorem drain_spec (n : Nat) (tty : Tty) (nr : Nat) (out : List Byte) (hn : tty.secondary.chars = n)
    (hpos : 0 < n) (hnr : 0 < nr) :
    let queued := tty.secondary.contents
    let k := reach (stops tty.termios) nr queued
    let d := drain n tty nr out
    d.tty.secondary.contents = queued.drop k ∧ d.tty.termios = tty.termios ∧
      d.out = out ++ (queued.take k).filter (fun b => !stops tty.termios b) ∧
      (d.eof = false → d.nr < nr ∧ d.out ≠ []) := by
  induction n generalizing tty nr out with
  | zero => omega
  | succ n ih =>
    obtain ⟨nr, rfl⟩ : ∃ m, nr = m + 1 := ⟨nr - 1, by omega⟩
    have hne : tty.secondary.empty = false := by
      rw [← Bool.not_eq_true, TtyQueue.empty_iff]
      omega
    have hcons := take_contents hne
    have hchars : (LineCount.take tty).secondary.chars = n := by
      have hlen := congrArg List.length hcons
      simp only [List.length_cons, TtyQueue.length_contents] at hlen
      omega
    dsimp only
    rw [hcons]
    unfold drain
    dsimp only
    rw [take_termios]
    cases hstop : stops tty.termios tty.secondary.first with
    | true => simp [reach, hstop]
    | false =>
      have hstop' : ¬ (false = true) := by simp
      simp only [if_neg hstop', Nat.add_sub_cancel, reach, hstop]
      by_cases hlast : nr = 0 ∨ (LineCount.take tty).secondary.empty = true
      · rw [if_pos hlast]
        have hnone : reach (stops tty.termios) nr (LineCount.take tty).secondary.contents = 0 := by
          rcases hlast with rfl | hempty
          · simp [reach]
          · rw [TtyQueue.contents_eq_nil_iff.mpr hempty]
            cases nr <;> simp [reach]
        simp [hnone, hstop]
      · rw [if_neg hlast]
        have hmore : ¬ (LineCount.take tty).secondary.empty = true := fun h => hlast (Or.inr h)
        rw [TtyQueue.empty_iff] at hmore
        have h := ih (LineCount.take tty) nr (out ++ [tty.secondary.first]) hchars (by omega)
          (by omega)
        simp only [take_termios] at h
        obtain ⟨hcont, hterm, hout, hleft⟩ := h
        refine ⟨by simp [hcont], hterm, by simp [hout, hstop], fun heof => ?_⟩
        have := (hleft heof).1
        exact ⟨by omega, (hleft heof).2⟩

/-! ## A round -/

@[simp] theorem finish_tty (c : Call) (s : Sys) : (c.finish s).tty = s.tty := rfl

@[simp] theorem finish_out (c : Call) (s : Sys) : (c.finish s).out = c.out := rfl

@[simp] theorem rearm_tty (c : Call) (s : Sys) : (c.rearm s).1.tty = s.tty := by
  unfold Call.rearm
  split <;> rfl

@[simp] theorem rearm_out (c : Call) (s : Sys) : (c.rearm s).2.out = c.out := by
  unfold Call.rearm
  split <;> rfl

@[simp] theorem rearm_nr (c : Call) (s : Sys) : (c.rearm s).2.nr = c.nr := by
  unfold Call.rearm
  split <;> rfl

/-- After a signal or without anything to be read the queue is as it was. -/
theorem round_keeps (h : ¬ Drains s c) : (round s c).tty = s.tty ∧ (round s c).out = c.out := by
  unfold round
  by_cases hnr : c.nr = 0
  · rw [if_pos hnr]
    simp
  rw [if_neg hnr]
  by_cases halrm : c.flag = true ∧ s.signal &&& alrmmask ≠ 0
  · rw [if_pos halrm]
    simp
  rw [if_neg halrm]
  by_cases hsig : s.signal = 0
  · have hwait : waits s.tty = true := by
      by_contra hnot
      exact h ⟨hnr, hsig, by simpa using hnot⟩
    rw [if_neg (not_not.mpr hsig), if_pos hwait]
    split <;> exact ⟨rfl, rfl⟩
  · rw [if_pos hsig]
    simp

/-- What the round does once it comes to the inner loop. -/
theorem round_drains (h : Drains s c) :
    let d := drain s.tty.secondary.chars s.tty c.nr c.out
    (round s c).tty = d.tty ∧ (round s c).out = d.out ∧
      ∀ s' c', round s c = .again s' c' → d.eof = false ∧ c'.nr = d.nr ∧
        (s'.tty.termios.icanon = true → d.out = []) := by
  obtain ⟨hnr, hsig, hwait⟩ := h
  have halrm : ¬ (c.flag = true ∧ s.signal &&& alrmmask ≠ 0) := by simp [hsig]
  have hwait' : ¬ waits s.tty = true := by simp [hwait]
  unfold round
  rw [if_neg hnr, if_neg halrm, if_neg (not_not.mpr hsig), if_neg hwait']
  dsimp only
  generalize drain s.tty.secondary.chars s.tty c.nr c.out = d
  cases heof : d.eof with
  | true =>
    simp only [if_true]
    exact ⟨rfl, rfl, fun s' c' heq => Progress.noConfusion heq⟩
  | false =>
    have hnot : ¬ (false = true) := by simp
    simp only [if_neg hnot]
    split
    · split
      · exact ⟨by simp, by simp, fun s' c' heq => Progress.noConfusion heq⟩
      · next hout =>
        refine ⟨by simp [Progress.tty], by simp [Progress.out], fun s' c' heq => ?_⟩
        cases heq
        refine ⟨trivial, by simp, fun _ => ?_⟩
        simpa using hout
    · next hmode =>
      split
      · exact ⟨by simp, by simp, fun s' c' heq => Progress.noConfusion heq⟩
      · refine ⟨by simp [Progress.tty], by simp [Progress.out], fun s' c' heq => ?_⟩
        cases heq
        exact ⟨trivial, by simp, fun hcanon => absurd hcanon hmode⟩

theorem chars_pos (h : waits s.tty = false) : 0 < s.tty.secondary.chars := by
  have hne : ¬ s.tty.secondary.empty = true := by
    unfold waits at h
    simp_all
  rw [TtyQueue.empty_iff] at hne
  omega

/-! ## Lines -/

theorem killTail_prefix (ends : Byte → Bool) (queued : List Byte) :
    killTail ends queued <+: queued :=
  List.rdropWhile_prefix ..

/-- What is not seen to end a line is taken for a part of it. -/
theorem killTail_mono {e f : Byte → Bool} (h : ∀ b, e b = true → f b = true) (queued : List Byte) :
    killTail e queued <+: killTail f queued := by
  induction queued using List.reverseRecOn with
  | nil => simp [killTail]
  | append_singleton line b ih =>
    rw [killTail_concat, killTail_concat]
    cases he : e b with
    | true => simp [h b he]
    | false =>
      cases hf : f b with
      | true =>
        have hline := killTail_prefix e line
        simpa using hline.trans (List.prefix_append line [b])
      | false => simpa using ih

theorem killTail_eraseLast (ends : Byte → Bool) (queued : List Byte) :
    killTail ends queued <+: eraseLast ends queued := by
  rcases List.eq_nil_or_concat' queued with rfl | ⟨line, b, rfl⟩
  · simp [killTail]
  · rw [killTail_concat, eraseLast_concat]
    split
    · exact List.prefix_rfl
    · exact killTail_prefix ends line

/-- The line ends are all before the line that has none. -/
theorem killTail_end {ends : Byte → Bool} {queued : List Byte} {b : Byte} (hb : b ∈ queued)
    (he : ends b = true) : ∃ front back, queued = front ++ b :: back ∧
      front.length + 1 ≤ (killTail ends queued).length := by
  induction queued using List.reverseRecOn with
  | nil => simp at hb
  | append_singleton line a ih =>
    rw [killTail_concat]
    by_cases ha : ends a = true
    · obtain ⟨front, back, heq⟩ := List.append_of_mem hb
      refine ⟨front, back, heq, ?_⟩
      have hlen := congrArg List.length heq
      simp only [List.length_append, List.length_cons] at hlen
      rw [if_pos ha]
      simp only [List.length_append, List.length_singleton]
      simp only [List.length_nil] at hlen
      omega
    · have hba : b ≠ a := fun heq => ha (heq ▸ he)
      have hline : b ∈ line := by simpa [hba] using hb
      obtain ⟨front, back, heq, hlen⟩ := ih hline
      rw [if_neg ha]
      exact ⟨front, back ++ [a], by simp [heq], hlen⟩

theorem ends_isEnd {t : Termios} {b : Byte} (h : t.ends b = true) : t.isEnd b = true := by
  rw [ends_eq] at h
  simp_all

theorem stops_ends {t : Termios} {b : Byte} (h : stops t b = true) : t.ends b = true := by
  unfold stops at h
  unfold Termios.ends
  simp_all

/-- What is taken is within the lines that have been ended. -/
theorem reach_lines (t : Termios) (nr : Nat) (queued : List Byte) :
    reach (stops t) nr queued ≤ (killTail t.ends queued).length ↔
      nr ≤ (killTail t.ends queued).length ∨ killTail t.ends queued = queued ∨
        ∃ b ∈ queued, stops t b = true := by
  have hpre := killTail_prefix t.ends queued
  constructor
  · intro h
    by_cases hstop : ∃ b ∈ queued, stops t b = true
    · exact Or.inr (Or.inr hstop)
    · have hclear : ∀ b ∈ queued, stops t b = false := fun b hb => by
        rw [← Bool.not_eq_true]
        exact fun hs => hstop ⟨b, hb, hs⟩
      rw [reach_clear hclear] at h
      by_cases hnr : nr ≤ (killTail t.ends queued).length
      · exact Or.inl hnr
      · exact Or.inr (Or.inl (hpre.eq_of_length_le (by omega)))
  · intro h
    rcases h with hnr | hall | ⟨b, hb, hstop⟩
    · exact (reach_le_nr nr queued).trans hnr
    · rw [hall]
      exact reach_le_length nr queued
    · obtain ⟨front, back, heq, hlen⟩ := killTail_end hb (stops_ends hstop)
      have hreach := reach_le_stop nr front back hstop
      rw [← heq] at hreach
      omega

/-- **Finished lines only.** The characters that a round takes are of lines that have been
ended, and ERASE and KILL would leave them, exactly if it comes to the inner loop only with
no more asked for than that, nothing else queued or an EOF character there. -/
theorem delivers_ended_lines (s : Sys) (c : Call) : Firm s c ↔ (Drains s c → Within s c) := by
  unfold Firm Within
  dsimp only
  by_cases hd : Drains s c
  · obtain ⟨htty, hout, -⟩ := round_drains hd
    obtain ⟨hcont, -, hbuf, -⟩ :=
      drain_spec _ s.tty c.nr c.out rfl (chars_pos hd.2.2) (Nat.pos_of_ne_zero hd.1)
    rw [htty, hout, hcont, hbuf, ← reach_lines]
    generalize s.tty.secondary.contents = queued
    have hle : reach (stops s.tty.termios) c.nr queued ≤ queued.length :=
      reach_le_length c.nr queued
    generalize reach (stops s.tty.termios) c.nr queued = k at hle ⊢
    have hseen := killTail_mono (fun b => ends_isEnd (t := s.tty.termios) (b := b)) queued
    have hpre := killTail_prefix s.tty.termios.ends queued
    constructor
    · intro ⟨n, hdrop, _, _, hkill, _⟩ _
      have hlen := congrArg List.length hdrop
      have hkept := hkill.length_le
      simp only [List.length_drop, List.length_take] at hlen hkept
      omega
    · intro h
      have hkill : queued.take k <+: killTail s.tty.termios.ends queued := by
        refine List.prefix_of_prefix_length_le (List.take_prefix k queued) hpre ?_
        have hk := h hd
        simp only [List.length_take]
        omega
      exact ⟨k, rfl, rfl, hkill.trans hseen, hkill, hkill.trans (killTail_eraseLast _ _)⟩
  · obtain ⟨htty, hout⟩ := round_keeps hd
    rw [htty, hout]
    constructor
    · exact fun _ h => absurd h hd
    · exact fun _ => ⟨0, by simp⟩

/-! ## Waiting -/

/-- The round goes to `sleep_if_empty`. -/
theorem round_waits (h : Waiting s c) :
    round s c = if s.sleeps then .asleep s c else .again s c := by
  obtain ⟨hnr, hsig, hwait⟩ := h
  have halrm : ¬ (c.flag = true ∧ s.signal &&& alrmmask ≠ 0) := by simp [hsig]
  unfold round
  rw [if_neg hnr, if_neg halrm, if_neg (not_not.mpr hsig), if_pos hwait]

/-- It does not sleep if a line without an end is queued. -/
theorem stuck_iff : Stuck s c ↔ Waiting s c ∧ s.sleeps = false := by
  unfold Stuck Waiting Unfinished Sys.sleeps waits
  cases s.tty.secondary.empty with
  | true => simp
  | false =>
    simp
    tauto

/-- A round ends the call, waits, or takes characters. -/
theorem again_cases {s' : Sys} {c' : Call} (h : round s c = .again s' c') :
    (Waiting s c ∧ s.sleeps = false) ∨ Drains s c := by
  by_cases hd : Drains s c
  · exact Or.inr hd
  unfold round at h
  by_cases hnr : c.nr = 0
  · rw [if_pos hnr] at h
    cases h
  rw [if_neg hnr] at h
  by_cases halrm : c.flag = true ∧ s.signal &&& alrmmask ≠ 0
  · rw [if_pos halrm] at h
    cases h
  rw [if_neg halrm] at h
  by_cases hsig : s.signal = 0
  · have hwait : waits s.tty = true := by
      by_contra hnot
      exact hd ⟨hnr, hsig, by simpa using hnot⟩
    rw [if_neg (not_not.mpr hsig), if_pos hwait] at h
    cases hsleep : s.sleeps with
    | true =>
      rw [hsleep, if_pos rfl] at h
      cases h
    | false => exact Or.inl ⟨⟨hnr, hsig, hwait⟩, rfl⟩
  · rw [if_pos hsig] at h
    cases h

/-- **A round of `tty_read`** that is to wait sleeps, and one that does not sleep or leave the
loop takes a character, exactly if it does not find only a line without an end. -/
theorem never_spins (s : Sys) (c : Call) : Serves s c ↔ ¬ Stuck s c := by
  rw [stuck_iff]
  constructor
  · intro ⟨hsleeps, _⟩ ⟨hwait, hnot⟩
    have hround := round_waits hwait
    rw [hsleeps hwait, hnot] at hround
    cases hround
  · intro h
    constructor
    · intro hwait
      cases hsleep : s.sleeps with
      | true => rw [round_waits hwait, hsleep, if_pos rfl]
      | false => exact absurd ⟨hwait, hsleep⟩ h
    · intro s' c' hagain
      rcases again_cases hagain with hstuck | hd
      · exact absurd hstuck h
      · obtain ⟨heof, hnr, _⟩ := (round_drains hd).2.2 s' c' hagain
        obtain ⟨-, -, -, hleft⟩ :=
          drain_spec _ s.tty c.nr c.out rfl (chars_pos hd.2.2) (Nat.pos_of_ne_zero hd.1)
        rw [hnr]
        exact (hleft heof).1

theorem stuck_again (h : Stuck s c) : round s c = .again s c := by
  obtain ⟨hwait, hsleep⟩ := stuck_iff.mp h
  rw [round_waits hwait, hsleep, if_neg (by simp)]

/-- It goes on like that. -/
theorem stuck_forever (h : Stuck s c) (n : Nat) : Progress.next^[n] (.again s c) = .again s c := by
  induction n with
  | zero => rfl
  | succ n ih =>
    rw [Function.iterate_succ_apply', ih]
    exact stuck_again h

theorem rests_forever {p : Progress} (h : p.rests = true) (n : Nat) : Progress.next^[n] p = p := by
  induction n with
  | zero => rfl
  | succ n ih =>
    rw [Function.iterate_succ_apply', ih]
    cases p with
    | again s c => simp [Progress.rests] at h
    | asleep s c => rfl
    | done s ret out => rfl

/-- A call that is left alone comes to rest exactly if no round gets stuck. -/
theorem call_ends_iff (p : Progress) :
    (∃ n, (Progress.next^[n] p).rests = true) ↔
      ∀ n s c, Progress.next^[n] p = .again s c → ¬ Stuck s c := by
  constructor
  · intro ⟨n, hrest⟩ m s c hm hstuck
    -- both hold for good, and cannot at the same time
    have hlater : Progress.next^[n + m] p = .again s c := by
      rw [Function.iterate_add_apply, hm]
      exact stuck_forever hstuck n
    have hrested := rests_forever hrest m
    rw [← Function.iterate_add_apply, Nat.add_comm m n, hlater] at hrested
    rw [← hrested] at hrest
    simp [Progress.rests] at hrest
  · intro h
    cases p with
    | asleep s c => exact ⟨0, rfl⟩
    | done s ret out => exact ⟨0, rfl⟩
    | again s c =>
      -- fewer characters are asked for in each round
      induction hn : c.nr using Nat.strong_induction_on generalizing s c with
      | _ n ih =>
        have hserves := (never_spins s c).mpr (h 0 s c rfl)
        cases hround : round s c with
        | asleep s' c' => exact ⟨1, by simp [Progress.next, hround, Progress.rests]⟩
        | done s' ret out => exact ⟨1, by simp [Progress.next, hround, Progress.rests]⟩
        | again s' c' =>
          have hless := hserves.2 s' c' hround
          have hnext : Progress.next (.again s c) = .again s' c' := hround
          have hlater : ∀ m t d, Progress.next^[m] (.again s' c') = .again t d → ¬ Stuck t d := by
            intro m t d hm
            refine h (m + 1) t d ?_
            rw [Function.iterate_succ_apply, hnext]
            exact hm
          obtain ⟨m, hm⟩ := ih c'.nr (by omega) s' c' hlater rfl
          refine ⟨m + 1, ?_⟩
          rw [Function.iterate_succ_apply, hnext]
          exact hm

/-! ## The console -/

/-- The console with something queued, and the number of lines that it is taken for. -/
def queuedTty (bytes : List Byte) (lines : Nat) : Sys where
  tty     := { idleTty consoleTermios [] with secondary := (TtyQueue.init lines).puts bytes }
  signal  := 0
  alarm   := 0
  jiffies := 0

/-- A call that asks for 100 characters. -/
def hundred : Call := ⟨100, [], 0, 1, false, 0⟩

/-- "a", a newline and "b": the "b" is delivered as well, and KILL would have taken it. -/
theorem delivers_unfinished :
    ttyRead (queuedTty [97, 10, 98] 1) 0 100 0 1 = .again (queuedTty [97, 10, 98] 1) hundred ∧
      (queuedTty [97, 10, 98] 1).tty.termios.icanon = true ∧
      (round (queuedTty [97, 10, 98] 1) hundred).out = [97, 10, 98] ∧
      ¬ Firm (queuedTty [97, 10, 98] 1) hundred := by
  have hqueued : (queuedTty [97, 10, 98] 1).tty.secondary.contents = [97, 10, 98] := by
    decide +kernel
  have hleft : (round (queuedTty [97, 10, 98] 1) hundred).tty.secondary.contents = [] := by
    decide +kernel
  have hlines : killTail (queuedTty [97, 10, 98] 1).tty.termios.ends [97, 10, 98] = [97, 10] := by
    decide +kernel
  refine ⟨rfl, rfl, by decide +kernel, ?_⟩
  unfold Firm
  dsimp only
  rw [hqueued, hleft, hlines]
  intro ⟨n, hdrop, _, _, hkill, _⟩
  have hn := List.drop_eq_nil_iff.mp hdrop.symm
  have hlen := hkill.length_le
  simp at hn hlen
  omega

/-- "a" alone: the call comes to the top of its loop again and again. -/
theorem spins_on_unfinished :
    ttyRead (queuedTty [97] 0) 0 100 0 1 = .again (queuedTty [97] 0) hundred ∧
      ¬ Serves (queuedTty [97] 0) hundred ∧
      ∀ n, Progress.next^[n] (ttyRead (queuedTty [97] 0) 0 100 0 1) =
        .again (queuedTty [97] 0) hundred := by
  have hstuck : Stuck (queuedTty [97] 0) hundred :=
    ⟨by decide, rfl, rfl, by decide +kernel, by decide +kernel, by decide +kernel⟩
  refine ⟨rfl, fun h => ?_, stuck_forever hstuck⟩
  exact absurd (h.2 _ _ (stuck_again hstuck)) (Nat.lt_irrefl _)

end Linux011.ChrDrv.TtyRead
