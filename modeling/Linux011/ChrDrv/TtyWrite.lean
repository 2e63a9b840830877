import Linux011.ChrDrv.TtyQueue
import Mathlib.Logic.Relation

/-!
# Terminals — `tty_write`

Output processing with the calls of several tasks in progress. A call loses the
processor only where it sleeps or calls `schedule`; interrupts come at any
time. Whether the CR of a newline has been put into the queue is kept in one
static variable, `cr_flag`, which all calls on all terminals share.

* `good_step` — what a call has put is the translation of what it has taken,
  and the CR of its next byte if that is in the queue already;
* `output_translated` — so every call puts exactly the translation of the bytes
  it reports, if `cr_flag` is right about its next newline when its loop begins
  and it is not cut short between a CR and its newline.
-/

namespace Linux011.ChrDrv

/-! ## Characters -/

/-- What `ctype.h` finds for the bytes from 0x80 on: as `char`s they are
negative, and index what lies before the table. -/
structure Ctype where
  upper : Byte → Bool
  lower : Byte → Bool

/-- `islower`. -/
def Ctype.islower (k : Ctype) (c : Byte) : Bool :=
  if c.toNat < 128 then 97 ≤ c.toNat && c.toNat ≤ 122 else k.lower c

/-- `toupper`. -/
def Ctype.toupper (k : Ctype) (c : Byte) : Byte :=
  if k.islower c then c - 32#8 else c

namespace TtyWrite

/-- The output modes of a terminal. -/
structure OFlags where
  post  : Bool
  crnl  : Bool
  nlret : Bool
  nlcr  : Bool
  lcuc  : Bool
  deriving DecidableEq, Repr

/-- `OCRNL` and `ONLRET`. -/
def OFlags.newline (f : OFlags) (c : Byte) : Byte :=
  if c = 13#8 && f.crnl then 10#8 else if c = 10#8 && f.nlret then 13#8 else c

/-- `OLCUC`. -/
def OFlags.case (f : OFlags) (k : Ctype) (c : Byte) : Byte := if f.lcuc then k.toupper c else c

/-- What one round of the inner loop puts into the queue: a CR for a newline,
which stays where it is, or the byte. -/
inductive Out
  | cr
  | char (c : Byte)

/-- The round. -/
def OFlags.out (f : OFlags) (k : Ctype) (crFlag : Bool) (b : Byte) : Out :=
  if f.post then
    let c := f.newline b
    if c = 10#8 && !crFlag && f.nlcr then .cr else .char (f.case k c)
  else
    .char b

/-- A byte that is to be preceded by a CR. -/
def OFlags.needsCr (f : OFlags) (b : Byte) : Bool := f.post && f.nlcr && f.newline b = 10#8

/-- The output translation of a byte. -/
def OFlags.translate (f : OFlags) (k : Ctype) (b : Byte) : List Byte :=
  if f.post then
    (if f.needsCr b then [13#8] else []) ++ [f.case k (f.newline b)]
  else
    [b]

/-! ## Calls in progress -/

/-- Where a call is: at `while (nr>0)`, asleep in `sleep_if_full`, or in the
inner loop. -/
inductive Pc
  | ready
  | asleep
  | inner
  deriving DecidableEq, Repr

/-- A call on terminal `chan`: the bytes taken and those left, and what it has
put into the queue. `crPut` says that the CR of its next byte is there. -/
structure Call where
  chan  : Nat
  taken : List Byte
  rest  : List Byte
  put   : List Byte
  crPut : Bool
  pc    : Pc
  deriving DecidableEq, Repr

/-- What a call that has returned has taken and put. -/
structure Report where
  chan  : Nat
  taken : List Byte
  put   : List Byte
  deriving DecidableEq, Repr

structure State where
  writeQ   : Nat → TtyQueue
  crFlag   : Bool
  call     : Nat → Option Call
  running  : Option Nat
  finished : List Report

/-- What may happen next. `intr` is what interrupts and the drivers do to a
queue. -/
inductive Op
  | call (i chan : Nat) (buf : List Byte)
  | resume (i : Nat)
  | test (i : Nat) (signal : Bool)
  | wake (i : Nat) (signal : Bool)
  | round (i : Nat)
  | leave (i : Nat)
  | intr (chan : Nat) (q : TtyQueue)

def State.setCall (s : State) (i : Nat) (c : Call) : State :=
  { s with call := Function.update s.call i (some c) }

/-- `return (b-buf)`. -/
def State.finish (s : State) (i : Nat) (c : Call) : State :=
  { s with
    call := Function.update s.call i none
    running := none
    finished := ⟨c.chan, c.taken, c.put⟩ :: s.finished }

/-- `if (current->signal) break;` -/
def State.enter (s : State) (i : Nat) (c : Call) (signal : Bool) : State :=
  if signal then s.finish i c else { s.setCall i { c with pc := .inner } with running := some i }

/-- The end of the inner loop: `schedule()` if bytes are left. -/
def State.leave (s : State) (i : Nat) (c : Call) : State :=
  if c.rest = [] then s.finish i c else { s.setCall i { c with pc := .ready } with running := none }

/-- A round of the inner loop, `b` next. -/
def State.round (f : OFlags) (k : Ctype) (s : State) (i : Nat) (c : Call) (b : Byte)
    (rest : List Byte) : State :=
  match f.out k s.crFlag b with
  | .cr => { s.setCall i { c with put := c.put ++ [13#8], crPut := true } with
      crFlag := true
      writeQ := Function.update s.writeQ c.chan ((s.writeQ c.chan).putch 13#8) }
  | .char d => { s.setCall i { c with
        taken := c.taken ++ [b], rest := rest, put := c.put ++ [d], crPut := false } with
      crFlag := false
      writeQ := Function.update s.writeQ c.chan ((s.writeQ c.chan).putch d) }

/-- One step; `none` when it is not possible. `flags` are the modes of the
terminals. -/
def State.step (flags : Nat → OFlags) (k : Ctype) (s : State) : Op → Option State
  | .call i chan buf =>
    if s.running = none && s.call i = none && chan ≤ 2 then
      some { s.setCall i ⟨chan, [], buf, [], false, .ready⟩ with running := some i }
    else none
  | .resume i =>
    match s.call i with
    | some c => if s.running = none && c.pc = .ready then some { s with running := some i } else none
    | none => none
  | .test i signal =>
    match s.call i with
    | some c =>
      if s.running = some i && c.pc = .ready then
        if c.rest = [] then some (s.finish i c)
        else if (s.writeQ c.chan).full && !signal then
          some { s.setCall i { c with pc := .asleep } with running := none }
        else some (s.enter i c signal)
      else none
    | none => none
  | .wake i signal =>
    match s.call i with
    | some c =>
      if s.running = none && c.pc = .asleep && (signal || 128 ≤ (s.writeQ c.chan).left) then
        some (s.enter i c signal)
      else none
    | none => none
  | .round i =>
    match s.call i with
    | some c =>
      match c.rest with
      | b :: rest =>
        if c.pc = .inner && !(s.writeQ c.chan).full then
          some (s.round (flags c.chan) k i c b rest)
        else none
      | [] => none
    | none => none
  | .leave i =>
    match s.call i with
    | some c =>
      if c.pc = .inner && (c.rest = [] || (s.writeQ c.chan).full) then some (s.leave i c) else none
    | none => none
  | .intr chan q => some { s with writeQ := Function.update s.writeQ chan q }

/-- No call in progress. -/
def start (writeQ : Nat → TtyQueue) : State := ⟨writeQ, false, fun _ => none, none, []⟩

/-! ## The invariant -/

/-- The next byte of a call is to be preceded by a CR. -/
def Call.nextNeedsCr (f : OFlags) (c : Call) : Bool := (c.rest.head?.map f.needsCr).getD false

/-- What a call has put: the translation of what it has taken, and the CR of
its next byte if that is a newline and the CR is there. -/
structure Call.Good (f : OFlags) (k : Ctype) (c : Call) : Prop where
  put     : c.put = c.taken.flatMap (f.translate k) ++ if c.crPut then [13#8] else []
  pending : c.crPut = true → c.nextNeedsCr f = true

structure Good (flags : Nat → OFlags) (k : Ctype) (s : State) : Prop where
  call     : ∀ i c, s.call i = some c → c.Good (flags c.chan) k
  inner    : ∀ i c, s.call i = some c → c.pc = .inner → s.running = some i ∧
    (c.nextNeedsCr (flags c.chan) = true → s.crFlag = c.crPut)
  finished : ∀ r ∈ s.finished, r.put = r.taken.flatMap ((flags r.chan).translate k)

/-- `cr_flag` is right for the call: where its loop begins at a newline it says
whether the CR has been put; and a call that ends early has put no CR too
many. -/
def Call.entered (f : OFlags) (crFlag : Bool) (c : Call) (signal : Bool) : Bool :=
  if signal then !c.crPut else !c.nextNeedsCr f || crFlag == c.crPut

/-- The step begins or ends a call's loop as it should. -/
def State.careful (flags : Nat → OFlags) (s : State) : Op → Bool
  | .test i signal =>
    match s.call i with
    | some c => c.rest = [] || (s.writeQ c.chan).full && !signal || c.entered (flags c.chan) s.crFlag signal
    | none => true
  | .wake i signal =>
    match s.call i with
    | some c => c.entered (flags c.chan) s.crFlag signal
    | none => true
  | _ => true

variable {flags : Nat → OFlags} {f : OFlags} {k : Ctype} {s s' : State} {i : Nat} {c : Call}

/-- A call without bytes left has no CR too many. -/
theorem Call.Good.done (h : c.Good f k) (hrest : c.rest = []) : c.crPut = false := by
  by_contra hc
  rw [Bool.not_eq_false] at hc
  have := h.pending hc
  unfold Call.nextNeedsCr at this
  rw [hrest] at this
  cases this

/-- A round that puts a CR does so for a newline. -/
theorem out_cr {crFlag : Bool} {b : Byte} (h : f.out k crFlag b = .cr) :
    f.needsCr b = true ∧ crFlag = false := by
  unfold OFlags.out at h
  dsimp only at h
  split at h
  · next hp =>
    split at h
    · next hc =>
      unfold OFlags.needsCr
      simp only [Bool.and_eq_true, decide_eq_true_eq, Bool.not_eq_true'] at hc
      simp [hp, hc]
    · cases h
  · cases h

/-- A round that puts a byte: the translation, the CR apart, which is there
already if the byte needs one. -/
theorem out_char {crFlag : Bool} {b d : Byte} (h : f.out k crFlag b = .char d) :
    f.translate k b = (if f.needsCr b then [13#8] else []) ++ [d] ∧
      (f.needsCr b = true → crFlag = true) := by
  unfold OFlags.out at h
  unfold OFlags.translate
  dsimp only at h
  split at h
  · next hp =>
    split at h
    · cases h
    · next hc =>
      cases h
      rw [if_pos hp]
      refine ⟨rfl, fun hn => ?_⟩
      unfold OFlags.needsCr at hn
      simp only [Bool.and_eq_true, decide_eq_true_eq] at hn
      by_contra hcr
      rw [Bool.not_eq_true] at hcr
      simp [hcr, hn] at hc
  · next hp =>
    cases h
    have hn : f.needsCr b = false := by
      unfold OFlags.needsCr
      simp [hp]
    simp [hp, hn]

/-- While task `i` has the processor, or nobody has, no other task is in the
inner loop. -/
theorem Good.alone (G : Good flags k s) (hr : s.running = none ∨ s.running = some i) {j : Nat}
    {d : Call} (hj : j ≠ i) (hd : s.call j = some d) : d.pc ≠ .inner := by
  intro hin
  have hrun := (G.inner j d hd hin).1
  rcases hr with h | h <;> rw [h] at hrun <;> cases hrun
  exact hj rfl

/-- Task `i` goes on with its call. -/
theorem Good.setCall (G : Good flags k s) (hr : s.running = none ∨ s.running = some i)
    (hc : c.Good (flags c.chan) k) {r : Option Nat} {b : Bool} {q : Nat → TtyQueue}
    (hpc : c.pc = .inner → r = some i ∧ (c.nextNeedsCr (flags c.chan) = true → b = c.crPut)) :
    Good flags k { s.setCall i c with running := r, crFlag := b, writeQ := q } := by
  refine ⟨fun j d hd => ?_, fun j d hd hin => ?_, G.finished⟩ <;>
    (unfold State.setCall at hd; dsimp only at hd; by_cases hj : j = i)
  · subst hj
    rw [Function.update_self] at hd
    cases hd
    exact hc
  · rw [Function.update_of_ne hj] at hd
    exact G.call j d hd
  · subst hj
    rw [Function.update_self] at hd
    cases hd
    exact hpc hin
  · rw [Function.update_of_ne hj] at hd
    exact absurd hin (G.alone hr hj hd)

/-- Task `i` returns from its call. -/
theorem Good.finish (G : Good flags k s) (hr : s.running = none ∨ s.running = some i)
    (hc : c.Good (flags c.chan) k) (hcr : c.crPut = false) : Good flags k (s.finish i c) := by
  refine ⟨fun j d hd => ?_, fun j d hd hin => ?_, fun r hmem => ?_⟩
  · unfold State.finish at hd
    dsimp only at hd
    by_cases hj : j = i
    · subst hj
      rw [Function.update_self] at hd
      cases hd
    · rw [Function.update_of_ne hj] at hd
      exact G.call j d hd
  · unfold State.finish at hd
    dsimp only at hd
    by_cases hj : j = i
    · subst hj
      rw [Function.update_self] at hd
      cases hd
    · rw [Function.update_of_ne hj] at hd
      exact absurd hin (G.alone hr hj hd)
  · rcases List.mem_cons.mp hmem with rfl | hmem
    · have hput := hc.put
      rw [hcr] at hput
      simpa using hput
    · exact G.finished r hmem

theorem Good.enter (G : Good flags k s) (hr : s.running = none ∨ s.running = some i)
    (hc : c.Good (flags c.chan) k) {signal : Bool} (hok : c.entered (flags c.chan) s.crFlag signal = true) :
    Good flags k (s.enter i c signal) := by
  unfold State.enter
  unfold Call.entered at hok
  cases signal with
  | true => exact G.finish hr hc (by simpa using hok)
  | false =>
    rw [if_neg (by decide)] at hok ⊢
    have hflag : c.nextNeedsCr (flags c.chan) = true → s.crFlag = c.crPut := fun hn => by
      simpa [hn] using hok
    exact G.setCall (c := { c with pc := .inner }) (q := s.writeQ) hr ⟨hc.put, hc.pending⟩
      fun _ => ⟨rfl, hflag⟩

/-- **A round** of the inner loop. -/
theorem Good.round (G : Good flags k s) (hcall : s.call i = some c) (hin : c.pc = .inner) {b : Byte}
    {rest : List Byte} (hrest : c.rest = b :: rest) :
    Good flags k (s.round (flags c.chan) k i c b rest) := by
  obtain ⟨hrun, hflag⟩ := G.inner i c hcall hin
  have hc := G.call i c hcall
  have hnext : c.nextNeedsCr (flags c.chan) = (flags c.chan).needsCr b := by
    unfold Call.nextNeedsCr
    rw [hrest]
    rfl
  rw [hnext] at hflag
  unfold State.round
  cases hout : (flags c.chan).out k s.crFlag b with
  | cr =>
    obtain ⟨hneed, hno⟩ := out_cr hout
    have hcr : c.crPut = false := by rw [← hflag hneed, hno]
    have hput := hc.put
    rw [hcr] at hput
    refine G.setCall (Or.inr hrun) ⟨?_, fun _ => ?_⟩ fun _ => ⟨hrun, fun _ => rfl⟩
    · simpa using hput
    · exact hnext.trans hneed
  | char d =>
    obtain ⟨htrans, hset⟩ := out_char hout
    have hcr : c.crPut = (flags c.chan).needsCr b := by
      cases hneed : (flags c.chan).needsCr b with
      | true => rw [← hflag hneed, hset hneed]
      | false =>
        by_contra hc'
        rw [Bool.not_eq_false] at hc'
        have := hc.pending hc'
        rw [hnext, hneed] at this
        cases this
    refine G.setCall (Or.inr hrun) ⟨?_, fun h => by cases h⟩ fun _ => ⟨hrun, fun _ => rfl⟩
    dsimp only
    rw [hc.put, hcr, List.flatMap_append, List.flatMap_singleton, htrans]
    simp

/-- **One step**: every call in progress and every call that has returned has
put the translation of what it has taken. -/
theorem good_step (G : Good flags k s) {op : Op} (hok : s.careful flags op = true)
    (hs : s.step flags k op = some s') : Good flags k s' := by
  cases op with
  | call i chan buf =>
    simp only [State.step, Option.ite_none_right_eq_some, Bool.and_eq_true, decide_eq_true_eq] at hs
    obtain ⟨⟨⟨hrun, -⟩, -⟩, hs⟩ := hs
    cases hs
    exact G.setCall (Or.inl hrun) ⟨rfl, fun h => by cases h⟩ fun h => by cases h
  -- no other call was in its inner loop when this one went on
  | resume i =>
    simp only [State.step] at hs
    split at hs
    · next c hc =>
      simp only [Option.ite_none_right_eq_some, Bool.and_eq_true, decide_eq_true_eq] at hs
      obtain ⟨⟨hrun, -⟩, hs⟩ := hs
      cases hs
      refine ⟨G.call, fun j d hd hin => ?_, G.finished⟩
      have hr := (G.inner j d hd hin).1
      rw [hrun] at hr
      cases hr
    · cases hs
  | test i signal =>
    simp only [State.step] at hs
    split at hs
    · next c hc =>
      simp only [Option.ite_none_right_eq_some, Bool.and_eq_true, decide_eq_true_eq] at hs
      obtain ⟨⟨hrun, -⟩, hs⟩ := hs
      have hgood := G.call i c hc
      split at hs
      · next hrest =>
        cases hs
        exact G.finish (Or.inr hrun) hgood (hgood.done hrest)
      · next hrest =>
        split at hs
        · cases hs
          exact G.setCall (c := { c with pc := .asleep }) (q := s.writeQ) (Or.inr hrun)
            ⟨hgood.put, hgood.pending⟩
            fun h => absurd h (by decide : Pc.asleep ≠ .inner)
        · next hfull =>
          cases hs
          unfold State.careful at hok
          simp only [hc, hrest, Bool.or_eq_true, Bool.and_eq_true, decide_eq_true_eq, false_or] at hok
          exact G.enter (Or.inr hrun) hgood (hok.resolve_left hfull)
    · cases hs
  | wake i signal =>
    simp only [State.step] at hs
    split at hs
    · next c hc =>
      simp only [Option.ite_none_right_eq_some, Bool.and_eq_true, decide_eq_true_eq] at hs
      obtain ⟨⟨⟨hrun, -⟩, -⟩, hs⟩ := hs
      cases hs
      unfold State.careful at hok
      simp only [hc] at hok
      exact G.enter (Or.inl hrun) (G.call i c hc) hok
    · cases hs
  | round i =>
    simp only [State.step] at hs
    split at hs
    · next c hc =>
      split at hs
      · next b rest hrest =>
        simp only [Option.ite_none_right_eq_some, Bool.and_eq_true, decide_eq_true_eq] at hs
        obtain ⟨⟨hin, -⟩, hs⟩ := hs
        cases hs
        exact G.round hc hin hrest
      · cases hs
    · cases hs
  | leave i =>
    simp only [State.step] at hs
    split at hs
    · next c hc =>
      simp only [Option.ite_none_right_eq_some, Bool.and_eq_true, decide_eq_true_eq] at hs
      obtain ⟨⟨hin, -⟩, hs⟩ := hs
      cases hs
      have hgood := G.call i c hc
      have hrun := Or.inr (a := s.running = none) (G.inner i c hc hin).1
      unfold State.leave
      split
      · next hrest => exact G.finish hrun hgood (hgood.done hrest)
      · exact G.setCall (c := { c with pc := .ready }) (q := s.writeQ) hrun ⟨hgood.put, hgood.pending⟩
          fun h => absurd h (by decide : Pc.ready ≠ .inner)
    · cases hs
  | intr chan q =>
    cases hs
    exact ⟨G.call, G.inner, G.finished⟩

/-! ## Runs -/

theorem good_start (writeQ : Nat → TtyQueue) : Good flags k (start writeQ) :=
  ⟨fun _ _ h => (by cases h), fun _ _ h => (by cases h), fun _ h => (by cases h)⟩

/-- A step that begins and ends the loops of calls as it should. -/
def Next (flags : Nat → OFlags) (k : Ctype) (s s' : State) : Prop :=
  ∃ op, s.careful flags op = true ∧ s.step flags k op = some s'

theorem good_reach {writeQ : Nat → TtyQueue} (h : Relation.ReflTransGen (Next flags k) (start writeQ) s) :
    Good flags k s := by
  induction h with
  | refl => exact good_start writeQ
  | tail _ hs ih =>
    obtain ⟨op, hok, hs⟩ := hs
    exact good_step ih hok hs

/-- **Output processing is per call** in a run whose steps begin and end the
loops of calls with `cr_flag` right: what a call has put is exactly the
translation of the bytes it reports. -/
theorem output_translated {writeQ : Nat → TtyQueue}
    (h : Relation.ReflTransGen (Next flags k) (start writeQ) s) {r : Report} (hr : r ∈ s.finished) :
    r.put = r.taken.flatMap ((flags r.chan).translate k) :=
  (good_reach h).finished r hr

/-- The steps of a list, one after the other. -/
def State.run (flags : Nat → OFlags) (k : Ctype) (s : State) : List Op → Option State
  | [] => some s
  | op :: ops => (s.step flags k op).bind fun s => s.run flags k ops

/-- Every step of the list is careful. -/
def State.carefulRun (flags : Nat → OFlags) (k : Ctype) (s : State) : List Op → Bool
  | [] => true
  | op :: ops => s.careful flags op && ((s.step flags k op).map fun s => s.carefulRun flags k ops).getD true

theorem reach_of_run {ops : List Op} (hok : s.carefulRun flags k ops = true)
    (h : s.run flags k ops = some s') : Relation.ReflTransGen (Next flags k) s s' := by
  induction ops generalizing s with
  | nil =>
    cases h
    exact .refl
  | cons op ops ih =>
    obtain ⟨u, hu, hrun⟩ := Option.bind_eq_some_iff.mp h
    unfold State.carefulRun at hok
    rw [hu, Bool.and_eq_true] at hok
    exact (Relation.ReflTransGen.single ⟨op, hok.1, hu⟩).trans (ih hok.2 hrun)

/-- `OPOST|ONLCR` everywhere. -/
def cooked : Nat → OFlags := fun _ => ⟨true, false, false, true, false⟩

/-- No byte from 0x80 on is a letter. -/
def ascii : Ctype := ⟨fun _ => false, fun _ => false⟩

/-- Terminal 1 has room for one byte, the others for as many as there is. -/
def oneLeft (chan : Nat) : TtyQueue :=
  if chan = 1 then ⟨0, 1022, 0, fun _ => 0#8, by decide, TtyQueue.zero_lt_1024⟩ else .init 0

/-- Task 1 writes a newline to terminal 1, which has room for the CR only; it
goes on when the terminal has taken some bytes. -/
def oneNewline : List Op :=
  [.call 1 1 [10#8], .test 1 false, .round 1, .leave 1, .intr 1 (.init 0), .resume 1, .test 1 false,
    .round 1, .leave 1]

theorem output_translated_newline :
    ∃ s, (start oneLeft).run cooked ascii oneNewline = some s ∧
      s.finished = [⟨1, [10#8], [13#8, 10#8]⟩] ∧
      [13#8, 10#8] = [10#8].flatMap ((cooked 1).translate ascii) := by
  have hrun : ((start oneLeft).run cooked ascii oneNewline).map State.finished =
      some [⟨1, [10#8], [13#8, 10#8]⟩] := by decide +kernel
  obtain ⟨s, hs, hfin⟩ := Option.map_eq_some_iff.mp hrun
  have hreach := reach_of_run (by decide +kernel) hs
  have hmem : (⟨1, [10#8], [13#8, 10#8]⟩ : Report) ∈ s.finished := by
    rw [hfin]
    exact List.mem_singleton.mpr rfl
  exact ⟨s, hs, hfin, output_translated hreach hmem⟩

/-- Task 1 puts the CR of a newline into the last place on terminal 1 and is
scheduled away; task 2 writes a newline to terminal 0. -/
def splitNewline : List Op :=
  [.call 1 1 [10#8], .test 1 false, .round 1, .leave 1,
    .call 2 0 [10#8], .test 2 false, .round 2, .leave 2]

/-- The same, but a signal comes for task 1. -/
def cutNewline : List Op :=
  [.call 1 1 [10#8], .test 1 false, .round 1, .leave 1, .resume 1, .test 1 true]

/-- The newline of task 2 has no CR; task 1 has put a CR for a byte that it does
not report. -/
theorem output_mixed :
    ((start oneLeft).run cooked ascii splitNewline).map State.finished = some [⟨0, [10#8], [10#8]⟩] ∧
    [10#8].flatMap ((cooked 0).translate ascii) = [13#8, 10#8] ∧
    ((start oneLeft).run cooked ascii cutNewline).map State.finished = some [⟨1, [], [13#8]⟩] := by
  decide +kernel

end TtyWrite

end Linux011.ChrDrv
