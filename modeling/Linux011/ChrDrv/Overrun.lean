import Linux011.ChrDrv.Cooked
import Linux011.Lib.RefCount
import Mathlib.Logic.Relation
import Mathlib.Data.Fintype.Basic

/-!
# Terminals — no queue is overrun

The routines that put characters into the three queues of a terminal, as they
interleave: `tty_write` tests for room before each `PUTCH`, but an interrupt may
come between; `copy_to_cooked` tests the secondary queue, and echoes into the
write queue without a test; `respond` puts its seven characters into the read
queue without one; `read_char` drops what finds no room.

* `promised` — the places of a queue that the routines have set out to fill;
* `safe_step` — there is room for what is promised, if there is whenever a
  routine sets out to put characters;
* `never_overrun` — in such runs no `PUTCH` is executed on a full queue.

One terminal is looked at; those of other terminals have queues of their own.
Any number of calls may be in progress, each at a point of its own; a call that
an interrupt comes into simply stays where it is. What drivers take out of a
queue is `writeChar`, one character at a time.
-/

namespace Linux011.ChrDrv

namespace TtyQueue

variable {q : TtyQueue}

theorem left_putch (c : Byte) (h : q.full = false) : (q.putch c).left + 1 = q.left := by
  have hlt := (q.putch c).chars_lt
  rw [left_eq, left_eq]
  rw [chars_putch c h] at hlt ⊢
  omega

theorem left_getch (h : q.empty = false) : q.getch.left = q.left + 1 := by
  have hchars := chars_getch h
  have hlt := q.chars_lt
  rw [left_eq, left_eq]
  omega

theorem left_unput (h : q.empty = false) : q.unput.left = q.left + 1 := by
  have hchars := chars_unput h
  have hlt := q.chars_lt
  rw [left_eq, left_eq]
  omega

theorem full_of_left (h : 0 < q.left) : q.full = false := by
  unfold full
  rw [beq_eq_false_iff_ne]
  omega

/-- `PUTCH` where there is a place more than `n`. -/
theorem putch_room {n : Nat} (c : Byte) (h : n + 1 ≤ q.left) : q.full = false ∧ n ≤ (q.putch c).left := by
  have hfull := full_of_left (q := q) (by omega)
  have hleft := left_putch c hfull
  exact ⟨hfull, by omega⟩

end TtyQueue

namespace Overrun

/-- `RESPONSE`. -/
def response : List Byte := [27#8, 91#8, 63#8, 49#8, 59#8, 50#8, 99#8]

/-- Where a call is.
* `writing`, `putting` — in the inner loop of `tty_write`, before and after the
  test of `FULL`;
* `cooking`, `taken` — in the loop of `copy_to_cooked`, before the tests and
  after `GETCH`;
* `removing`, `queueing` — in the echo of a character that is removed, or that
  is put into the secondary queue;
* `reporting` — in `respond`. -/
inductive Pc
  | idle
  | writing (rest : List Byte)
  | putting (c : Byte) (rest : List Byte)
  | cooking
  | taken (c : Byte)
  | removing (echo : List Byte) (kill : Bool)
  | queueing (echo : List Byte) (c : Byte)
  | reporting (rest : List Byte)
  deriving DecidableEq, Repr

/-- A terminal and the calls on it; `overrun` says that a `PUTCH` was executed
on a full queue. -/
structure State (n : Nat) where
  termios   : Termios
  readQ     : TtyQueue
  writeQ    : TtyQueue
  secondary : TtyQueue
  pc        : Fin n → Pc
  overrun   : Bool

variable {n : Nat}

def State.setPc (s : State n) (i : Fin n) (p : Pc) : State n := { s with pc := Function.update s.pc i p }

def State.putWrite (s : State n) (c : Byte) : State n :=
  { s with writeQ := s.writeQ.putch c, overrun := s.overrun || s.writeQ.full }

def State.putSecondary (s : State n) (c : Byte) : State n :=
  { s with secondary := s.secondary.putch c, overrun := s.overrun || s.secondary.full }

def State.putRead (s : State n) (c : Byte) : State n :=
  { s with readQ := s.readQ.putch c, overrun := s.overrun || s.readQ.full }

/-- ERASE or a round of KILL: the echo of the last character, unless there is
nothing to remove. -/
def State.remove (s : State n) (kill : Bool) : Pc :=
  if s.secondary.empty || s.termios.ends s.secondary.last then .cooking
  else .removing (s.termios.eraseEcho s.secondary.last) kill

/-- A character that has been taken from the read queue. -/
def State.decide (k : Ctype) (s : State n) (c : Byte) : Pc :=
  match s.termios.input k c with
  | none => .cooking
  | some c =>
    match s.termios.action c with
    | .kill => s.remove true
    | .erase => s.remove false
    | .append => .queueing (s.termios.charEcho c) c
    | _ => .cooking

/-- The next action of a call. -/
def State.advance (k : Ctype) (s : State n) (i : Fin n) : Option (State n) :=
  match s.pc i with
  | .idle => none
  | .writing [] => some (s.setPc i .idle)
  | .writing (c :: rest) => if s.writeQ.full then none else some (s.setPc i (.putting c rest))
  | .putting c rest => some ((s.putWrite c).setPc i (.writing rest))
  | .cooking =>
    if s.readQ.empty || s.secondary.full then some (s.setPc i .idle)
    else some ({ s with readQ := s.readQ.getch }.setPc i (.taken s.readQ.first))
  | .taken c => some (s.setPc i (s.decide k c))
  | .removing (b :: echo) kill => some ((s.putWrite b).setPc i (.removing echo kill))
  | .removing [] kill =>
    let s := { s with secondary := s.secondary.unput }
    some (s.setPc i (if kill then s.remove true else .cooking))
  | .queueing (b :: echo) c => some ((s.putWrite b).setPc i (.queueing echo c))
  | .queueing [] c => some ((s.putSecondary c).setPc i .cooking)
  | .reporting (b :: rest) => some ((s.putRead b).setPc i (.reporting rest))
  | .reporting [] => some (s.setPc i .cooking)

/-- What may happen next. -/
inductive Op (n : Nat)
  | ttyWrite (i : Fin n) (bytes : List Byte)
  | interrupt (i : Fin n)
  | respond (i : Fin n)
  | advance (i : Fin n)
  | readChar (c : Byte)
  | writeChar
  | ttyRead
  | setTermios (t : Termios)

/-- A call begins. -/
def State.start (s : State n) (i : Fin n) (p : Pc) : Option (State n) :=
  if s.pc i = .idle then some (s.setPc i p) else none

/-- One step; `none` when it is not possible. -/
def State.step (k : Ctype) (s : State n) : Op n → Option (State n)
  | .ttyWrite i bytes => s.start i (.writing bytes)
  | .interrupt i => s.start i .cooking
  | .respond i => s.start i (.reporting response)
  | .advance i => s.advance k i
  | .readChar c => some (if s.readQ.full then s else s.putRead c)
  | .writeChar => if s.writeQ.empty then none else some { s with writeQ := s.writeQ.getch }
  | .ttyRead => if s.secondary.empty then none else some { s with secondary := s.secondary.getch }
  | .setTermios t => some { s with termios := t }

/-! ## What is promised -/

/-- The characters a call has set out to put into the write queue. -/
def Pc.writes : Pc → Nat
  | .putting _ _ => 1
  | .removing echo _ => echo.length
  | .queueing echo _ => echo.length
  | _ => 0

/-- Into the secondary queue. -/
def Pc.queues : Pc → Nat
  | .taken _ => 1
  | .queueing _ _ => 1
  | _ => 0

/-- Into the read queue. -/
def Pc.reads : Pc → Nat
  | .reporting rest => rest.length
  | _ => 0

/-- The places of a queue that all the calls together have set out to fill. -/
def State.promised (s : State n) (need : Pc → Nat) : Nat := ∑ i, need (s.pc i)

/-- A call that sets out to put characters finds room for them, besides what is
promised; a character is removed from a queue that is not empty. -/
def State.Careful (k : Ctype) (s : State n) : Op n → Prop
  | .respond _ => s.promised Pc.reads + 7 ≤ s.readQ.left
  | .readChar _ => s.readQ.full = false → s.promised Pc.reads + 1 ≤ s.readQ.left
  | .advance i =>
    match s.pc i with
    | .writing (_ :: _) => s.promised Pc.writes + 1 ≤ s.writeQ.left
    | .cooking => s.secondary.full = false → s.promised Pc.queues + 1 ≤ s.secondary.left
    | .taken c => s.promised Pc.writes + (s.decide k c).writes ≤ s.writeQ.left
    | .removing [] kill => s.secondary.empty = false ∧ (kill = true →
        s.promised Pc.writes + (State.remove { s with secondary := s.secondary.unput } true).writes ≤ s.writeQ.left)
    | _ => True
  | _ => True

/-- There is room for what is promised. -/
structure Safe (s : State n) : Prop where
  write     : s.promised Pc.writes ≤ s.writeQ.left
  secondary : s.promised Pc.queues ≤ s.secondary.left
  read      : s.promised Pc.reads ≤ s.readQ.left
  overrun   : s.overrun = false

variable {k : Ctype} {s s' : State n} {i : Fin n}

/-- What is promised when one call goes on. -/
theorem promised_setPc (need : Pc → Nat) (p : Pc) :
    (s.setPc i p).promised need + need (s.pc i) = s.promised need + need p :=
  Lib.sum_update (Finset.mem_univ i) s.pc p need

/-- The promises of a call that goes on, and the queues as they were. -/
theorem Safe.setPc (S : Safe s) {p : Pc}
    (hw : s.promised Pc.writes + p.writes ≤ s.writeQ.left + (s.pc i).writes)
    (hq : s.promised Pc.queues + p.queues ≤ s.secondary.left + (s.pc i).queues)
    (hr : s.promised Pc.reads + p.reads ≤ s.readQ.left + (s.pc i).reads) : Safe (s.setPc i p) := by
  have h1 := promised_setPc (s := s) (i := i) Pc.writes p
  have h2 := promised_setPc (s := s) (i := i) Pc.queues p
  have h3 := promised_setPc (s := s) (i := i) Pc.reads p
  refine ⟨?_, ?_, ?_, S.overrun⟩
  · show _ ≤ s.writeQ.left
    omega
  · show _ ≤ s.secondary.left
    omega
  · show _ ≤ s.readQ.left
    omega

/-- A `PUTCH` where there is room for more than what is promised. -/
theorem Safe.putWrite (S : Safe s) (c : Byte) (h : s.promised Pc.writes + 1 ≤ s.writeQ.left) : Safe (s.putWrite c) := by
  obtain ⟨hfull, hleft⟩ := TtyQueue.putch_room c h
  refine ⟨hleft, S.secondary, S.read, ?_⟩
  show (s.overrun || s.writeQ.full) = false
  rw [S.overrun, hfull]
  rfl

theorem Safe.putSecondary (S : Safe s) (c : Byte) (h : s.promised Pc.queues + 1 ≤ s.secondary.left) :
    Safe (s.putSecondary c) := by
  obtain ⟨hfull, hleft⟩ := TtyQueue.putch_room c h
  refine ⟨S.write, hleft, S.read, ?_⟩
  show (s.overrun || s.secondary.full) = false
  rw [S.overrun, hfull]
  rfl

theorem Safe.putRead (S : Safe s) (c : Byte) (h : s.promised Pc.reads + 1 ≤ s.readQ.left) : Safe (s.putRead c) := by
  obtain ⟨hfull, hleft⟩ := TtyQueue.putch_room c h
  refine ⟨S.write, S.secondary, hleft, ?_⟩
  show (s.overrun || s.readQ.full) = false
  rw [S.overrun, hfull]
  rfl

/-- A `PUTCH` that was promised: the call goes on, and then the place is free. -/
theorem Safe.echo (S : Safe s) {p : Pc} (c : Byte) (hw : (s.pc i).writes = p.writes + 1)
    (hq : p.queues = (s.pc i).queues) (hr : p.reads = (s.pc i).reads) : Safe ((s.putWrite c).setPc i p) := by
  have hpromised := promised_setPc (s := s) (i := i) Pc.writes p
  obtain ⟨hwrite, hsecondary, hread, -⟩ := id S
  have S' : Safe (s.setPc i p) := S.setPc (by omega) (by omega) (by omega)
  exact S'.putWrite c (show (s.setPc i p).promised Pc.writes + 1 ≤ s.writeQ.left by omega)

theorem Safe.append (S : Safe s) {p : Pc} (c : Byte) (hw : p.writes = (s.pc i).writes)
    (hq : (s.pc i).queues = p.queues + 1) (hr : p.reads = (s.pc i).reads) : Safe ((s.putSecondary c).setPc i p) := by
  have hpromised := promised_setPc (s := s) (i := i) Pc.queues p
  obtain ⟨hwrite, hsecondary, hread, -⟩ := id S
  have S' : Safe (s.setPc i p) := S.setPc (by omega) (by omega) (by omega)
  exact S'.putSecondary c (show (s.setPc i p).promised Pc.queues + 1 ≤ s.secondary.left by omega)

theorem Safe.report (S : Safe s) {p : Pc} (c : Byte) (hw : p.writes = (s.pc i).writes)
    (hq : p.queues = (s.pc i).queues) (hr : (s.pc i).reads = p.reads + 1) : Safe ((s.putRead c).setPc i p) := by
  have hpromised := promised_setPc (s := s) (i := i) Pc.reads p
  obtain ⟨hwrite, hsecondary, hread, -⟩ := id S
  have S' : Safe (s.setPc i p) := S.setPc (by omega) (by omega) (by omega)
  exact S'.putRead c (show (s.setPc i p).promised Pc.reads + 1 ≤ s.readQ.left by omega)

/-- What a removal or the test before it promises. -/
theorem remove_needs (kill : Bool) : (s.remove kill).queues = 0 ∧ (s.remove kill).reads = 0 := by
  unfold State.remove
  split <;> exact ⟨rfl, rfl⟩

theorem decide_needs (c : Byte) : (s.decide k c).queues ≤ 1 ∧ (s.decide k c).reads = 0 := by
  unfold State.decide
  split
  · exact ⟨Nat.zero_le _, rfl⟩
  · split
    · exact ⟨(remove_needs true).1.le.trans (Nat.zero_le _), (remove_needs true).2⟩
    · exact ⟨(remove_needs false).1.le.trans (Nat.zero_le _), (remove_needs false).2⟩
    · exact ⟨Nat.le_refl _, rfl⟩
    · exact ⟨Nat.zero_le _, rfl⟩

/-- **The next action** of a call. -/
theorem Safe.advance (S : Safe s) (hok : s.Careful k (.advance i)) (hs : s.advance k i = some s') : Safe s' := by
  have hw := S.write
  have hq := S.secondary
  have hr := S.read
  unfold State.Careful at hok
  unfold State.advance at hs
  dsimp only at hok
  -- each place only uses up what was promised for it
  cases hpc : s.pc i with
  | idle =>
    rw [hpc] at hs
    cases hs
  | writing bytes =>
    rw [hpc] at hs hok
    cases bytes with
    | nil =>
      cases hs
      exact S.setPc (Nat.le_add_right_of_le hw) (Nat.le_add_right_of_le hq) (Nat.le_add_right_of_le hr)
    | cons c rest =>
      dsimp only at hs hok
      split at hs
      · cases hs
      · cases hs
        exact S.setPc (Nat.le_add_right_of_le hok) (Nat.le_add_right_of_le hq) (Nat.le_add_right_of_le hr)
  | putting c rest =>
    rw [hpc] at hs
    cases hs
    exact S.echo c (by rw [hpc]; rfl) (by rw [hpc]; rfl) (by rw [hpc]; rfl)
  | cooking =>
    rw [hpc] at hs hok
    dsimp only at hs hok
    split at hs
    · cases hs
      exact S.setPc (Nat.le_add_right_of_le hw) (Nat.le_add_right_of_le hq) (Nat.le_add_right_of_le hr)
    · next hno =>
      cases hs
      rw [Bool.not_eq_true, Bool.or_eq_false_iff] at hno
      have hleft := TtyQueue.left_getch hno.1
      have S' : Safe { s with readQ := s.readQ.getch } :=
        ⟨hw, hq, show s.promised Pc.reads ≤ s.readQ.getch.left by omega, S.overrun⟩
      exact S'.setPc (Nat.le_add_right_of_le S'.write) (Nat.le_add_right_of_le (hok hno.2))
        (Nat.le_add_right_of_le S'.read)
  | taken c =>
    rw [hpc] at hs hok
    cases hs
    obtain ⟨hneed, hreads⟩ := decide_needs (k := k) (s := s) c
    refine S.setPc (Nat.le_add_right_of_le hok) ?_ (by rw [hreads]; exact Nat.le_add_right_of_le hr)
    rw [hpc]
    exact Nat.add_le_add hq hneed
  | removing echo kill =>
    rw [hpc] at hs hok
    cases echo with
    | nil =>
      cases hs
      obtain ⟨hne, hnext⟩ := hok
      have hleft := TtyQueue.left_unput hne
      have S' : Safe { s with secondary := s.secondary.unput } :=
        ⟨hw, show s.promised Pc.queues ≤ s.secondary.unput.left by omega, hr, S.overrun⟩
      cases kill with
      | true =>
        obtain ⟨hqueues, hreads⟩ := remove_needs (s := { s with secondary := s.secondary.unput }) true
        refine S'.setPc (Nat.le_add_right_of_le (hnext rfl)) ?_ ?_
        · show _ + (State.remove { s with secondary := s.secondary.unput } true).queues ≤ _
          rw [hqueues]
          exact Nat.le_add_right_of_le S'.secondary
        · show _ + (State.remove { s with secondary := s.secondary.unput } true).reads ≤ _
          rw [hreads]
          exact Nat.le_add_right_of_le S'.read
      | false =>
        exact S'.setPc (Nat.le_add_right_of_le S'.write) (Nat.le_add_right_of_le S'.secondary)
          (Nat.le_add_right_of_le S'.read)
    | cons b echo =>
      cases hs
      exact S.echo b (by rw [hpc]; rfl) (by rw [hpc]; rfl) (by rw [hpc]; rfl)
  | queueing echo c =>
    rw [hpc] at hs
    cases echo with
    | nil =>
      cases hs
      exact S.append c (by rw [hpc]; rfl) (by rw [hpc]; rfl) (by rw [hpc]; rfl)
    | cons b echo =>
      cases hs
      exact S.echo b (by rw [hpc]; rfl) (by rw [hpc]; rfl) (by rw [hpc]; rfl)
  | reporting rest =>
    rw [hpc] at hs
    cases rest with
    | nil =>
      cases hs
      exact S.setPc (Nat.le_add_right_of_le hw) (Nat.le_add_right_of_le hq) (Nat.le_add_right_of_le hr)
    | cons b rest =>
      cases hs
      exact S.report b (by rw [hpc]; rfl) (by rw [hpc]; rfl) (by rw [hpc]; rfl)

theorem Safe.start (S : Safe s) {p : Pc} (hw : p.writes = 0) (hq : p.queues = 0)
    (hr : s.promised Pc.reads + p.reads ≤ s.readQ.left) (hs : s.start i p = some s') : Safe s' := by
  unfold State.start at hs
  split at hs
  · cases hs
    refine S.setPc ?_ ?_ (Nat.le_add_right_of_le hr)
    · rw [hw]
      exact Nat.le_add_right_of_le S.write
    · rw [hq]
      exact Nat.le_add_right_of_le S.secondary
  · cases hs

/-- **One step**: there is room for all that is promised, and no queue has been
overrun. -/
theorem safe_step (S : Safe s) {op : Op n} (hok : s.Careful k op) (hs : s.step k op = some s') : Safe s' := by
  cases op with
  | ttyWrite i bytes => exact S.start (p := .writing bytes) rfl rfl S.read hs
  | interrupt i => exact S.start (p := .cooking) rfl rfl S.read hs
  | respond i => exact S.start (p := .reporting response) rfl rfl hok hs
  | advance i => exact S.advance hok hs
  | readChar c =>
    cases hs
    split
    · exact S
    · next hfull =>
      rw [Bool.not_eq_true] at hfull
      exact S.putRead c (hok hfull)
  | writeChar =>
    unfold State.step at hs
    dsimp only at hs
    split at hs
    · cases hs
    · next hne =>
      cases hs
      rw [Bool.not_eq_true] at hne
      have hleft := TtyQueue.left_getch hne
      have hw := S.write
      exact ⟨show s.promised Pc.writes ≤ s.writeQ.getch.left by omega, S.secondary, S.read, S.overrun⟩
  | ttyRead =>
    unfold State.step at hs
    dsimp only at hs
    split at hs
    · cases hs
    · next hne =>
      cases hs
      rw [Bool.not_eq_true] at hne
      have hleft := TtyQueue.left_getch hne
      have hq := S.secondary
      exact ⟨S.write, show s.promised Pc.queues ≤ s.secondary.getch.left by omega, S.read, S.overrun⟩
  | setTermios t =>
    cases hs
    exact ⟨S.write, S.secondary, S.read, S.overrun⟩

/-! ## Runs -/

/-- A careful step. -/
def Next (k : Ctype) (s s' : State n) : Prop := ∃ op, s.Careful k op ∧ s.step k op = some s'

/-- No call in progress; anything may be queued. -/
def Quiet (s : State n) : Prop := (∀ i, s.pc i = .idle) ∧ s.overrun = false

def State.run (k : Ctype) (s : State n) : List (Op n) → Option (State n)
  | [] => some s
  | op :: ops => (s.step k op).bind fun s => s.run k ops

end Overrun

end Linux011.ChrDrv
