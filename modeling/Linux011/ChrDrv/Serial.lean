import Mathlib.Tactic.Common
import Linux011.ChrDrv.Keyboard

/-!
# The serial lines — `rs_io.s` and `serial.c`

A task writes to a line with `tty_write`, and the interrupts of the line's chip send what it
has put into the write queue. They are on only while there is something to send: `rs_write`
turns them on, and `write_char` off when it has taken the last byte. The task may be
interrupted anywhere, in the middle of `PUTCH` too.

* `Flows` — the invariant; `flows_step` — it is kept by the chip, the interrupts and the task;
* `serial_line` — no byte is lost, none is sent twice, and none stays behind.

One task writes, the bytes are those after output processing, and nothing is echoed: an echo
is put into the write queue by the interrupt, and in the middle of the task's `PUTCH` it takes
the place of the byte that is stored there. So `ECHO`, which is off at the start, stays off.
-/

namespace Linux011.ChrDrv.Serial

/-! ## The chip -/

/-- The interrupt enable register, the byte received and the byte to be sent, and the
interrupts that wait, of the transmitter, the line status and the modem status. -/
structure Uart where
  ier  : Byte
  rbr  : Option Byte
  thr  : Option Byte
  thre : Bool
  lsr  : Bool
  msr  : Bool
  deriving DecidableEq, Repr

/-- The interrupt identification register. Reading it answers the transmitter's interrupt. -/
def Uart.readIir (u : Uart) : Byte × Uart :=
  if u.ier.getLsbD 2 && u.lsr then (6, u)
  else if u.ier.getLsbD 0 && u.rbr.isSome then (4, u)
  else if u.ier.getLsbD 1 && u.thre then (2, { u with thre := false })
  else if u.ier.getLsbD 3 && u.msr then (0, u)
  else (1, u)

/-- The transmitter interrupts at once if it is turned on with nothing to send. -/
def Uart.writeIer (u : Uart) (v : Byte) : Uart :=
  { u with ier := v, thre := u.thre || (v.getLsbD 1 && !u.ier.getLsbD 1 && u.thr.isNone) }

def Uart.writeThr (u : Uart) (c : Byte) : Uart := { u with thr := some c, thre := false }

/-! ## The driver -/

def startup : Nat := 256

/-- Where the task is: in user mode; in the loop of `sleep_if_full`, asleep or about to look
again; in the inner loop of `tty_write`, or there in the middle of `PUTCH`; behind that loop,
about to call `rs_write`; or behind `rs_write`, where it calls `schedule`. -/
inductive Pc
  | user
  | asleep (woken : Bool) (rest : List Byte)
  | filling (rest : List Byte)
  | stored (c : Byte) (rest : List Byte)
  | leaving (rest : List Byte)
  | flushed (rest : List Byte)
  deriving DecidableEq, Repr

/-- `line` is what has been sent, `put` what `tty_write` has put; `got` is what `read_char` has
queued and `taken` what was taken from there. -/
structure Sys where
  uart   : Uart
  readQ  : TtyQueue
  writeQ : TtyQueue
  pc     : Pc
  line   : List Byte
  put    : List Byte
  got    : List Byte
  taken  : List Byte

/-- `movl $0,(%ebx)`: the task in `proc_list`, if there is one. -/
def Pc.wake : Pc → Pc
  | .asleep _ rest => .asleep true rest
  | pc => pc

/-- `write_buffer_empty`. -/
def writeBufferEmpty (s : Sys) : Sys :=
  { s with pc := s.pc.wake, uart := s.uart.writeIer (s.uart.ier &&& 0xd) }

/-- `write_char`. -/
def writeChar (s : Sys) : Sys :=
  if s.writeQ.chars = 0 then writeBufferEmpty s
  else
    let s' := { s with
      pc := if startup < s.writeQ.chars then s.pc else s.pc.wake
      uart := s.uart.writeThr s.writeQ.first
      writeQ := s.writeQ.getch }
    if s'.writeQ.empty then writeBufferEmpty s' else s'

/-- `read_char`. The byte is stored in any case. What `do_tty_interrupt` does then is to take
bytes from the queue, any number of them: see `Event.take`. -/
def readChar (s : Sys) : Sys :=
  let c := s.uart.rbr.getD 0
  let q := s.readQ.putch c
  let uart := { s.uart with rbr := none }
  if q.head = q.tail then
    { s with uart := uart, readQ := { q with head := s.readQ.head, head_lt := s.readQ.head_lt } }
  else { s with uart := uart, readQ := q, got := s.got ++ [c] }

/-- `modem_status` and `line_status`. -/
def modemStatus (s : Sys) : Sys := { s with uart := { s.uart with msr := false } }
def lineStatus (s : Sys) : Sys := { s with uart := { s.uart with lsr := false } }

/-- `jmp_table`. -/
def dispatch (iir : Byte) : Sys → Sys :=
  if iir = 0 then modemStatus else if iir = 2 then writeChar else if iir = 4 then readChar else lineStatus

/-- A round of `rep_int`; nothing if it is the last. -/
def serve (s : Sys) : Option Sys :=
  let (iir, uart) := s.uart.readIir
  if iir.getLsbD 0 then none
  else if 6 < iir.toNat then none
  else some (dispatch iir { s with uart := uart })

/-- `rs_write`. -/
def rsWrite (s : Sys) : Sys :=
  if s.writeQ.empty then s else { s with uart := s.uart.writeIer (s.uart.ier ||| 2) }

/-- `rs_init`, with the queues of `tty_table`. -/
def start (port : Nat) : Sys :=
  ⟨⟨0x0d, none, none, false, false, false⟩, .init port, .init port, .user, [], [], [], []⟩

/-! ## The task -/

/-- The top of the loop of `tty_write`, with the first test of `sleep_if_full`. -/
def enter (s : Sys) (rest : List Byte) (signal : Bool) : Sys :=
  if rest = [] then { s with pc := .user }
  else if s.writeQ.full then { s with pc := .asleep true rest }
  else if signal then { s with pc := .user }
  else { s with pc := .filling rest }

/-- The two halves of `PUTCH`. -/
def store (q : TtyQueue) (c : Byte) : TtyQueue := { q with buf := Function.update q.buf q.head c }
def advance : TtyQueue → TtyQueue
  | ⟨data, head, tail, buf, _, tail_lt⟩ => ⟨data, inc head, tail, buf, inc_lt head, tail_lt⟩

/-- What the chip and the task do, and the interrupts. A round of `rep_int` may come at any
time, and between two of them the chip may have something new. -/
inductive Event
  /-- The byte to be sent has been sent. -/
  | shift
  | receive (c : Byte)
  | lineChange
  | modemChange
  | interrupt
  /-- `copy_to_cooked` takes a byte. -/
  | take
  | call (buf : List Byte) (signal : Bool)
  | store
  | advance
  | leave
  | flush
  /-- The task is back from `schedule`. -/
  | next (signal : Bool)
  /-- The task gets a signal. -/
  | rouse
  /-- It is awake in `sleep_if_full`, and looks whether there is room. -/
  | wake (signal : Bool)
  deriving DecidableEq, Repr

/-- What cannot happen changes nothing. -/
def step (s : Sys) : Event → Sys
  | .shift =>
    match s.uart.thr with
    | none => s
    | some c => { s with uart := { s.uart with thr := none, thre := true }, line := s.line ++ [c] }
  | .receive c => { s with uart := { s.uart with rbr := some c } }
  | .lineChange => { s with uart := { s.uart with lsr := true } }
  | .modemChange => { s with uart := { s.uart with msr := true } }
  | .interrupt => (serve s).getD s
  | .take => if s.readQ.empty then s else { s with readQ := s.readQ.getch, taken := s.taken ++ [s.readQ.first] }
  | .call buf signal => if s.pc = .user then enter s buf signal else s
  | .store =>
    match s.pc with
    | .filling (c :: rest) => if s.writeQ.full then s else { s with pc := .stored c rest, writeQ := store s.writeQ c }
    | _ => s
  | .advance =>
    match s.pc with
    | .stored c rest => { s with pc := .filling rest, writeQ := advance s.writeQ, put := s.put ++ [c] }
    | _ => s
  | .leave =>
    match s.pc with
    | .filling rest => if rest = [] ∨ s.writeQ.full = true then { s with pc := .leaving rest } else s
    | _ => s
  | .flush =>
    match s.pc with
    | .leaving rest => { rsWrite s with pc := .flushed rest }
    | _ => s
  | .next signal =>
    match s.pc with
    | .flushed rest => enter s rest signal
    | _ => s
  | .rouse => { s with pc := s.pc.wake }
  | .wake signal =>
    match s.pc with
    | .asleep true rest =>
      if !signal && s.writeQ.left < 128 then { s with pc := .asleep false rest }
      else if signal then { s with pc := .user }
      else { s with pc := .filling rest }
    | _ => s

def run (s : Sys) (events : List Event) : Sys := events.foldl step s

/-! ## The queue -/

open Linux011.ChrDrv.Keyboard (head_putch keeps_putch)

variable {q : TtyQueue} {s : Sys}

/-- What has been stored is not queued yet. -/
theorem contents_store (q : TtyQueue) (c : Byte) : (store q c).contents = q.contents := (keeps_putch c).contents

theorem advance_eq {c : Byte} (h : q.buf q.head = c) : advance q = q.putch c := by
  unfold TtyQueue.putch
  rw [← h, Function.update_eq_self]
  rfl

theorem full_getch (hne : q.empty = false) : q.getch.full = false := by
  have hchars := TtyQueue.chars_getch hne
  have hlt := q.chars_lt
  rw [← Bool.not_eq_true, TtyQueue.full_iff]
  omega

theorem empty_false : q.empty = false ↔ q.chars ≠ 0 := by rw [← Bool.not_eq_true, TtyQueue.empty_iff]

/-! ## The invariant -/

/-- The task is between its first `PUTCH` and `rs_write`, and goes on by itself. -/
def Pc.busy : Pc → Bool
  | .filling _ | .stored _ _ | .leaving _ => true
  | _ => false

/-- A byte that is stored lies at the head. -/
def Pc.Holds (q : TtyQueue) : Pc → Prop
  | .stored c _ => q.buf q.head = c ∧ q.full = false
  | _ => True

def Pc.sleeps : Pc → Bool
  | .asleep false _ => true
  | _ => false

/-- The transmitter's interrupt is on. -/
def Uart.sends (u : Uart) : Bool := u.ier.getLsbD 1

/-- The invariant. -/
structure Flows (s : Sys) : Prop where
  sent    : s.put = s.line ++ s.uart.thr.toList ++ s.writeQ.contents
  got     : s.got = s.taken ++ s.readQ.contents
  ier     : s.uart.ier = 0x0d ∨ s.uart.ier = 0x0f
  pending : s.uart.sends = true → s.uart.thr = none → s.uart.thre = true
  idle    : s.uart.thre = true → s.uart.thr = none
  quiet   : s.uart.sends = true → s.writeQ.chars ≠ 0
  enabled : s.writeQ.chars ≠ 0 → s.uart.sends = true ∨ s.pc.busy = true
  stored  : s.pc.Holds s.writeQ
  asleep  : s.pc.sleeps = true → 256 ≤ s.writeQ.chars

theorem wake_sleeps (pc : Pc) : pc.wake.sleeps = false := by
  rcases pc with _ | ⟨woken, rest⟩ | rest | ⟨c, rest⟩ | rest | rest <;> rfl

theorem wake_busy (pc : Pc) : pc.wake.busy = pc.busy := by
  rcases pc with _ | ⟨woken, rest⟩ | rest | ⟨c, rest⟩ | rest | rest <;> rfl

theorem wake_holds (pc : Pc) (q : TtyQueue) : pc.wake.Holds q ↔ pc.Holds q := by
  rcases pc with _ | ⟨woken, rest⟩ | rest | ⟨c, rest⟩ | rest | rest <;> exact Iff.rfl

theorem Holds.getch {pc : Pc} (h : pc.Holds q) (hne : q.empty = false) : pc.Holds q.getch := by
  rcases pc with _ | ⟨woken, rest⟩ | rest | ⟨c, rest⟩ | rest | rest
  · trivial
  · trivial
  · trivial
  · exact ⟨h.1, full_getch hne⟩
  · trivial
  · trivial

theorem serve_some {iir : Byte} {u : Uart} (h : s.uart.readIir = (iir, u)) (heven : iir.getLsbD 0 = false)
    (hlast : ¬ 6 < iir.toNat) : serve s = some (dispatch iir { s with uart := u }) := by
  unfold serve
  rw [h]
  dsimp only
  rw [heven, if_neg Bool.false_ne_true, if_neg hlast]

/-- Which cause a round finds, with the interrupts that the driver leaves on. -/
theorem serve_eq (h : s.uart.ier = 0x0d ∨ s.uart.ier = 0x0f) : serve s =
    if s.uart.lsr then some (lineStatus s)
    else if s.uart.rbr.isSome then some (readChar s)
    else if s.uart.sends && s.uart.thre then some (writeChar { s with uart := { s.uart with thre := false } })
    else if s.uart.msr then some (modemStatus s)
    else none := by
  have hon : s.uart.ier.getLsbD 2 = true ∧ s.uart.ier.getLsbD 0 = true ∧ s.uart.ier.getLsbD 3 = true := by
    rcases h with h | h <;> rw [h] <;> decide
  have hiir : s.uart.readIir = if s.uart.lsr then (6, s.uart) else if s.uart.rbr.isSome then (4, s.uart)
      else if s.uart.sends && s.uart.thre then (2, { s.uart with thre := false })
      else if s.uart.msr then (0, s.uart) else (1, s.uart) := by
    unfold Uart.readIir Uart.sends
    rw [hon.1, hon.2.1, hon.2.2, Bool.true_and, Bool.true_and, Bool.true_and]
  split_ifs at hiir ⊢
  any_goals
    rw [serve_some hiir (by decide) (by decide)]
    rfl
  · unfold serve
    rw [hiir]
    rfl

/-! ## The interrupts keep it -/

/-- Nothing of the transmitter has changed. -/
theorem Flows.uart (h : Flows s) {u : Uart} (hier : u.ier = s.uart.ier) (hthr : u.thr = s.uart.thr)
    (hthre : u.thre = s.uart.thre) : Flows { s with uart := u } := by
  have hsends : u.sends = s.uart.sends := by
    unfold Uart.sends
    rw [hier]
  exact ⟨hthr ▸ h.sent, h.got, hier ▸ h.ier, by rw [hsends, hthr, hthre]; exact h.pending,
    by rw [hthr, hthre]; exact h.idle, by rw [hsends]; exact h.quiet, by rw [hsends]; exact h.enabled,
    h.stored, h.asleep⟩

theorem flows_readChar (h : Flows s) : Flows (readChar s) := by
  unfold readChar
  dsimp only
  have huart : Flows { s with uart := { s.uart with rbr := none } } := h.uart rfl rfl rfl
  by_cases hfull : s.readQ.full = true
  · rw [if_pos ((head_putch _).mpr hfull)]
    refine { huart with got := ?_ }
    exact h.got.trans (congrArg (s.taken ++ ·) (keeps_putch _).contents.symm)
  · rw [if_neg (mt (head_putch _).mp hfull)]
    refine { huart with got := ?_ }
    show s.got ++ [_] = s.taken ++ (s.readQ.putch _).contents
    rw [TtyQueue.contents_putch _ (by simpa using hfull), h.got, List.append_assoc]

/-- The interrupt is turned off, and the task woken. -/
theorem disabled {u : Uart} (h : u.ier = 0x0d ∨ u.ier = 0x0f) :
    (u.writeIer (u.ier &&& 0xd)).ier = 0x0d ∧ (u.writeIer (u.ier &&& 0xd)).thr = u.thr ∧
      (u.writeIer (u.ier &&& 0xd)).thre = u.thre := by
  unfold Uart.writeIer
  rcases h with h | h <;> rw [h] <;> simp

theorem flows_writeChar (h : Flows s) (hsends : s.uart.sends = true) (hthre : s.uart.thre = true) :
    Flows (writeChar { s with uart := { s.uart with thre := false } }) := by
  have hne : s.writeQ.empty = false := empty_false.mpr (h.quiet hsends)
  have hchars := TtyQueue.chars_getch hne
  have hsent : s.put = s.line ++ [s.writeQ.first] ++ s.writeQ.getch.contents := by
    rw [h.sent, h.idle hthre, TtyQueue.contents_getch hne, List.append_assoc, List.append_assoc]
    rfl
  obtain ⟨pc, hpc, hholds, hsleep⟩ : ∃ pc, (if startup < s.writeQ.chars then s.pc else s.pc.wake) = pc ∧
      pc.Holds s.writeQ.getch ∧ (pc.sleeps = true → 256 ≤ s.writeQ.getch.chars) := by
    refine ⟨_, rfl, ?_⟩
    unfold startup
    split_ifs with hmany
    · exact ⟨Holds.getch h.stored hne, fun _ => by omega⟩
    · refine ⟨Holds.getch ((wake_holds _ _).mpr h.stored) hne, fun hs => ?_⟩
      rw [wake_sleeps] at hs
      cases hs
  unfold writeChar
  dsimp only
  rw [if_neg (h.quiet hsends), hpc]
  have hsends' : (Uart.writeThr { s.uart with thre := false } s.writeQ.first).sends = true := hsends
  by_cases hlast : s.writeQ.getch.empty = true
  · -- the byte was the last one
    obtain ⟨hier, hthr, hthre'⟩ := disabled (u := Uart.writeThr { s.uart with thre := false } s.writeQ.first) h.ier
    have hzero := TtyQueue.empty_iff.mp hlast
    rw [if_pos hlast]
    unfold writeBufferEmpty
    dsimp only
    have hoff : ∀ {u : Uart}, u.ier = 0x0d → u.sends ≠ true := fun hu => by
      unfold Uart.sends
      rw [hu]
      decide
    refine ⟨?_, h.got, .inl hier, fun hs => absurd hs (hoff hier), fun hs => ?_, fun hs => absurd hs (hoff hier),
      fun hz => absurd hzero hz, (wake_holds _ _).mpr hholds, fun hs => ?_⟩
    · rw [hthr]
      exact hsent
    · rw [hthre'] at hs
      cases hs
    · rw [wake_sleeps] at hs
      cases hs
  · rw [if_neg hlast]
    have hmore : s.writeQ.getch.chars ≠ 0 := mt TtyQueue.empty_iff.mpr hlast
    exact ⟨hsent, h.got, h.ier, fun _ hs => absurd hs (Option.some_ne_none _), fun hs => Bool.noConfusion hs, fun _ => hmore,
      fun _ => .inl hsends', hholds, hsleep⟩

theorem flows_serve (h : Flows s) : Flows ((serve s).getD s) := by
  rw [serve_eq h.ier]
  split_ifs with hlsr hrbr hthre hmsr
  · exact h.uart rfl rfl rfl
  · exact flows_readChar h
  · rw [Bool.and_eq_true] at hthre
    exact flows_writeChar h hthre.1 hthre.2
  · exact h.uart rfl rfl rfl
  · exact h

/-! ## The task keeps it -/

/-- `rs_write`, and the interrupts are on if there is something to send. -/
theorem flows_rsWrite (h : Flows s) :
    Flows (rsWrite s) ∧ ((rsWrite s).writeQ.chars ≠ 0 → (rsWrite s).uart.sends = true) := by
  unfold rsWrite
  by_cases hempty : s.writeQ.empty = true
  · rw [if_pos hempty]
    exact ⟨h, fun hne => absurd (TtyQueue.empty_iff.mp hempty) hne⟩
  rw [if_neg hempty]
  have hon : s.uart.ier ||| 2 = 0x0f := by
    rcases h.ier with hier | hier <;> rw [hier] <;> decide
  have hsends : (s.uart.writeIer 0x0f).sends = true := by
    show (0x0f : Byte).getLsbD 1 = true
    decide
  have hpend : (s.uart.writeIer 0x0f).thr = none → (s.uart.writeIer 0x0f).thre = true := fun hnone => by
    have hthr : s.uart.thr = none := hnone
    unfold Uart.writeIer
    dsimp only
    rw [hthr]
    cases hs : s.uart.sends with
    | true => rw [h.pending hs hthr, Bool.true_or]
    | false =>
      unfold Uart.sends at hs
      rw [hs]
      simp
  have hidle : (s.uart.writeIer 0x0f).thre = true → (s.uart.writeIer 0x0f).thr = none := fun hthre => by
    unfold Uart.writeIer at hthre ⊢
    dsimp only at hthre ⊢
    rw [Bool.or_eq_true] at hthre
    rcases hthre with hthre | hnew
    · exact h.idle hthre
    · exact Option.isNone_iff_eq_none.mp (by simp_all)
  rw [hon]
  exact ⟨⟨h.sent, h.got, .inr rfl, fun _ => hpend, hidle, fun _ => mt TtyQueue.empty_iff.mpr hempty, fun _ => .inl hsends,
    h.stored, h.asleep⟩, fun _ => hsends⟩

/-- The task goes on somewhere where it has stored nothing. -/
theorem Flows.setPc (h : Flows s) {pc : Pc} (hstored : pc.Holds s.writeQ)
    (hon : s.writeQ.chars ≠ 0 → s.uart.sends = true ∨ pc.busy = true)
    (hsleep : pc.sleeps = true → 256 ≤ s.writeQ.chars) : Flows { s with pc := pc } :=
  { h with stored := hstored, enabled := hon, asleep := hsleep }

theorem flows_enter (h : Flows s) (hon : s.writeQ.chars ≠ 0 → s.uart.sends = true) (rest : List Byte) (signal : Bool) :
    Flows (enter s rest signal) := by
  unfold enter
  split_ifs
  all_goals exact h.setPc trivial (fun hne => .inl (hon hne)) fun hs => Bool.noConfusion hs

/-- The chip, the interrupts and the task, each in turn. -/
theorem flows_step (h : Flows s) (e : Event) : Flows (step s e) := by
  cases e with
  -- the byte in the register has gone out
  | shift =>
    unfold step
    dsimp only
    cases hthr : s.uart.thr with
    | none => exact h
    | some c =>
      refine { h with sent := ?_, pending := fun _ _ => rfl, idle := fun _ => rfl }
      show s.put = s.line ++ [c] ++ [] ++ s.writeQ.contents
      rw [h.sent, hthr, List.append_nil]
      rfl
  | receive c => exact h.uart rfl rfl rfl
  | lineChange => exact h.uart rfl rfl rfl
  | modemChange => exact h.uart rfl rfl rfl
  | interrupt => exact flows_serve h
  -- what is taken is the first byte queued
  | take =>
    unfold step
    dsimp only
    by_cases hempty : s.readQ.empty = true
    · rw [if_pos hempty]
      exact h
    · rw [if_neg hempty]
      refine { h with got := ?_ }
      show s.got = s.taken ++ [s.readQ.first] ++ s.readQ.getch.contents
      rw [h.got, TtyQueue.contents_getch (by simpa using hempty), List.append_assoc]
      rfl
  | call buf signal =>
    unfold step
    dsimp only
    split_ifs with hpc
    · refine flows_enter h (fun hne => (h.enabled hne).resolve_right fun hbusy => ?_) buf signal
      rw [hpc] at hbusy
      cases hbusy
    · exact h
  -- `PUTCH` stores first and moves the head afterwards
  | store =>
    unfold step
    dsimp only
    split
    · rename_i c rest hpc
      split_ifs with hfull
      · exact h
      · refine { h with sent := ?_, enabled := fun _ => .inr rfl, stored := ?_, asleep := fun hs => Bool.noConfusion hs }
        · rw [h.sent]
          exact congrArg _ (contents_store _ _).symm
        · have hroom : s.writeQ.full = false := by simpa using hfull
          exact ⟨Function.update_self .., hroom⟩
    · exact h
  | advance =>
    unfold step
    dsimp only
    split
    · rename_i c rest hpc
      have hstored := h.stored
      rw [hpc] at hstored
      have hchars := TtyQueue.chars_putch c hstored.2
      rw [advance_eq hstored.1]
      refine { h with
        sent := ?_, quiet := fun _ => ?_, enabled := fun _ => .inr rfl, stored := trivial
        asleep := fun hs => Bool.noConfusion hs }
      · show s.put ++ [c] = s.line ++ s.uart.thr.toList ++ (s.writeQ.putch c).contents
        rw [TtyQueue.contents_putch c hstored.2, h.sent, List.append_assoc]
      · show (s.writeQ.putch c).chars ≠ 0
        omega
    · exact h
  | leave =>
    unfold step
    dsimp only
    split
    · split_ifs
      · exact h.setPc trivial (fun _ => .inr rfl) fun hs => Bool.noConfusion hs
      · exact h
    · exact h
  | flush =>
    unfold step
    dsimp only
    split
    · obtain ⟨hflows, hon⟩ := flows_rsWrite h
      exact hflows.setPc trivial (fun hne => .inl (hon hne)) fun hs => Bool.noConfusion hs
    · exact h
  | next signal =>
    unfold step
    dsimp only
    split
    · rename_i rest hpc
      refine flows_enter h (fun hne => (h.enabled hne).resolve_right fun hbusy => ?_) rest signal
      rw [hpc] at hbusy
      cases hbusy
    · exact h
  | rouse =>
    refine h.setPc ((wake_holds _ _).mpr h.stored) (fun hne => ?_) fun hs => ?_
    · rw [wake_busy]
      exact h.enabled hne
    · rw [wake_sleeps] at hs
      cases hs
  | wake signal =>
    unfold step
    dsimp only
    split
    · rename_i rest hpc
      have hon : s.writeQ.chars ≠ 0 → s.uart.sends = true := fun hne =>
        (h.enabled hne).resolve_right fun hbusy => by
          rw [hpc] at hbusy
          cases hbusy
      split_ifs with hleft hsignal
      · refine h.setPc trivial (fun hne => .inl (hon hne)) fun _ => ?_
        rw [Bool.and_eq_true, decide_eq_true_iff, TtyQueue.left_eq] at hleft
        omega
      · exact h.setPc trivial (fun hne => .inl (hon hne)) fun hs => Bool.noConfusion hs
      · exact h.setPc trivial (fun _ => .inr rfl) fun hs => Bool.noConfusion hs
    · exact h

theorem flows_start (port : Nat) : Flows (start port) := by
  have hnone : (TtyQueue.init port).contents = [] := TtyQueue.contents_eq_nil_iff.mpr rfl
  have hzero : (TtyQueue.init port).chars = 0 := TtyQueue.empty_iff.mp rfl
  have hoff : ¬ (start port).uart.sends = true := by
    show ¬ (0x0d : Byte).getLsbD 1 = true
    decide
  refine ⟨?_, ?_, .inl rfl, fun hs => absurd hs hoff, fun hs => Bool.noConfusion hs,
    fun hs => absurd hs hoff, fun hne => absurd hzero hne, trivial, fun hs => Bool.noConfusion hs⟩ <;>
  · unfold start
    rw [hnone]
    rfl

theorem flows_run (h : Flows s) (events : List Event) : Flows (run s events) := by
  induction events generalizing s with
  | nil => exact h
  | cons e events ih => exact ih (flows_step h e)

/-- In every run: what the task has put is what was sent, the byte that is being sent and what
is queued; what was received and queued is what was taken and what is queued. If there is
something to send, the chip is sending or has an interrupt to make, unless the task is about
to call `rs_write`; and the task does not sleep with less than 256 bytes to be sent. So a
task that sleeps in `sleep_if_full` is woken, and what it has written gets out. -/
theorem serial_line (port : Nat) (events : List Event) :
    let s := run (start port) events
    s.put = s.line ++ s.uart.thr.toList ++ s.writeQ.contents ∧ s.got = s.taken ++ s.readQ.contents ∧
    (s.writeQ.contents ≠ [] → s.pc.busy = false →
      s.uart.sends = true ∧ (s.uart.thr.isSome ∨ s.uart.thre = true)) ∧
    ∀ rest, s.pc = .asleep false rest → 256 ≤ s.writeQ.chars := by
  intro s
  have h : Flows s := flows_run (flows_start port) events
  refine ⟨h.sent, h.got, fun hne hidle => ?_, fun rest hpc => h.asleep (by rw [hpc]; rfl)⟩
  have hchars : s.writeQ.chars ≠ 0 := by
    rw [Ne, TtyQueue.contents_eq_nil_iff, TtyQueue.empty_iff] at hne
    exact hne
  have hon := (h.enabled hchars).resolve_right (by rw [hidle]; exact Bool.false_ne_true)
  refine ⟨hon, ?_⟩
  cases hthr : s.uart.thr with
  | none => exact .inr (h.pending hon hthr)
  | some c => exact .inl rfl

end Linux011.ChrDrv.Serial
