import Mathlib.Logic.Relation
import Linux011.Lib.Ring

/-!
# Pipes

`read_pipe` and `write_pipe`. A pipe is a page used as a ring: `head` and `tail` are moved
before the bytes are copied. So it is a queue as long as no copy sleeps, and a copy that
does may meet the other end.

* `Fifo` — the page holds what was written and not yet read;
* `pipe_fifo` — any number of calls, if the copies do not sleep;
* `copy_survives` — a call may be suspended in its copy, if the other leaves alone the
  slots it still has to copy;
* `stale_read` — what happens otherwise.
-/

namespace Linux011.Fs.Pipe

open Linux011.Lib

abbrev Byte := BitVec 8

def pageSize : Nat := 4096

/-- The inode of a pipe: its page, `PIPE_HEAD`, `PIPE_TAIL` and `i_count`. -/
structure Node where
  page   : Nat → Byte
  head   : Nat
  tail   : Nat
  iCount : Nat

/-- `PIPE_SIZE`. -/
def Node.size (p : Node) : Nat := (((p.head : Int) - p.tail) % 4096).toNat

/-- An index after `chars` bytes: 16 bits, masked. -/
def advance (i chars : Nat) : Nat := (i + chars) % 65536 % 4096

/-- How much `read_pipe` copies in a round. -/
def Node.readable (p : Node) (count : Nat) : Nat := min (min (pageSize - p.tail) count) p.size

/-- How much `write_pipe` copies in a round. -/
def Node.writable (p : Node) (count : Nat) : Nat :=
  min (min (pageSize - p.head) count) (pageSize - 1 - p.size)

/-- Where a round of the loop of a call ends. -/
inductive Outcome
  | again
  | sleeps
  | returns (r : Int)
  /-- With `SIGPIPE`. -/
  | broken (r : Int)
  deriving DecidableEq, Repr

/-- A call of `read_pipe`: `count`, and the bytes stored so far. -/
structure Read where
  count : Nat
  buf   : List Byte

/-- A call of `write_pipe`: the bytes not yet taken, and `written`. -/
structure Write where
  rest    : List Byte
  written : Nat

/-- A round of the loop of `read_pipe`. -/
def Node.readRound (p : Node) (c : Read) : Node × Read × Outcome :=
  if c.count = 0 then (p, c, .returns c.buf.length)
  else if p.size = 0 then
    if p.iCount ≠ 2 then (p, c, .returns c.buf.length) else (p, c, .sleeps)
  else
    let chars := p.readable c.count
    ({ p with tail := advance p.tail chars },
      ⟨c.count - chars, c.buf ++ Ring.copyOut p.page p.tail chars⟩, .again)

/-- A round of the loop of `write_pipe`. -/
def Node.writeRound (p : Node) (c : Write) : Node × Write × Outcome :=
  if c.rest.length = 0 then (p, c, .returns c.written)
  else if pageSize - 1 - p.size = 0 then
    if p.iCount ≠ 2 then (p, c, .broken (if c.written ≠ 0 then c.written else -1)) else (p, c, .sleeps)
  else
    let chars := p.writable c.rest.length
    ({ p with
        head := advance p.head chars
        page := Ring.copyIn p.page p.head (c.rest.take chars) },
      ⟨c.rest.drop chars, c.written + chars⟩, .again)

inductive Call
  | read (asked : Nat) (c : Read)
  | write (data : List Byte) (c : Write)

/-- A call that has returned: what was asked and moved, what it returned, whether both ends
were open and the pipe was full then, and whether it has raised `SIGPIPE`. -/
structure Report where
  write   : Bool
  asked   : Nat
  moved   : List Byte
  result  : Int
  both    : Bool
  full    : Bool
  sigpipe : Bool

/-- The pipe and the calls of the tasks. For the specification only, all the bytes that
were put in and taken out. -/
structure State where
  pipe     : Node
  call     : Nat → Option Call
  inserted : List Byte
  removed  : List Byte
  log      : List Report

def State.setCall (s : State) (t : Nat) (c : Option Call) : State :=
  { s with call := Function.update s.call t c }

def State.report (s : State) (r : Report) : State := { s with log := s.log ++ [r] }

/-- The task goes on in `read_pipe`. -/
def State.read (s : State) (t asked : Nat) (c : Read) : State :=
  let (pipe, c', out) := s.pipe.readRound c
  let s := { s with pipe := pipe, removed := s.removed ++ c'.buf.drop c.buf.length }
  match out with
  | .returns r | .broken r =>
    (s.setCall t none).report ⟨false, asked, c'.buf, r, pipe.iCount = 2, pipe.size = pageSize - 1, false⟩
  | _ => s.setCall t (some (.read asked c'))

/-- The task goes on in `write_pipe`. -/
def State.write (s : State) (t : Nat) (data : List Byte) (c : Write) : State :=
  let (pipe, c', out) := s.pipe.writeRound c
  let s := { s with pipe := pipe, inserted := s.inserted ++ c.rest.take (c'.written - c.written) }
  match out with
  | .returns r =>
    (s.setCall t none).report
      ⟨true, data.length, data.take c'.written, r, pipe.iCount = 2, pipe.size = pageSize - 1, false⟩
  | .broken r =>
    (s.setCall t none).report
      ⟨true, data.length, data.take c'.written, r, pipe.iCount = 2, pipe.size = pageSize - 1, true⟩
  | _ => s.setCall t (some (.write data c'))

/-- Any number of tasks read and write, and the ends are closed. Between two rounds of a
loop others may run: more than the code allows, where they run if it sleeps. -/
inductive Step : State → State → Prop
  | startRead {s : State} (t asked : Nat) (ht : s.call t = none) :
      Step s (s.setCall t (some (.read asked ⟨asked, []⟩)))
  | startWrite {s : State} (t : Nat) (data : List Byte) (ht : s.call t = none) :
      Step s (s.setCall t (some (.write data ⟨data, 0⟩)))
  | read {s : State} (t asked : Nat) (c : Read) (ht : s.call t = some (.read asked c)) :
      Step s (s.read t asked c)
  | write {s : State} (t : Nat) (data : List Byte) (c : Write) (ht : s.call t = some (.write data c)) :
      Step s (s.write t data c)
  | close {s : State} : Step s { s with pipe := { s.pipe with iCount := s.pipe.iCount - 1 } }

abbrev Reach : State → State → Prop := Relation.ReflTransGen Step

/-- After `get_pipe_inode`. The page is not cleared for the pipe. -/
def fresh (page : Nat → Byte) : State where
  pipe := ⟨page, 0, 0, 2⟩
  call _ := none
  inserted := []
  removed := []
  log := []

/-! ## The bytes in the pipe -/

/-- What was taken out is the first part of what was put in, and the page holds the rest. -/
structure Fifo (p : Node) (inserted removed : List Byte) : Prop where
  head  : p.head = inserted.length % 4096
  tail  : p.tail = removed.length % 4096
  le    : removed.length ≤ inserted.length
  room  : inserted.length ≤ removed.length + 4095
  first : removed = inserted.take removed.length
  holds : Ring.Holds 4096 p.page inserted removed.length inserted.length

variable {p : Node} {inserted removed : List Byte}

theorem Fifo.size (h : Fifo p inserted removed) : p.size = inserted.length - removed.length := by
  have hle := h.le
  have hroom := h.room
  unfold Node.size
  rw [h.head, h.tail]
  omega

theorem advance_mod (n chars : Nat) : advance (n % 4096) chars = (n + chars) % 4096 := by
  unfold advance
  omega

theorem Fifo.read (h : Fifo p inserted removed) {chars : Nat} (hchars : removed.length + chars ≤ inserted.length)
    (hwrap : p.tail + chars ≤ 4096) :
    Fifo { p with tail := advance p.tail chars } inserted (removed ++ Ring.copyOut p.page p.tail chars) := by
  have hroom := h.room
  have htail := h.tail
  have hout : Ring.copyOut p.page p.tail chars = (inserted.drop removed.length).take chars := by
    rw [htail] at hwrap ⊢
    exact h.holds.copyOut hchars hwrap
  have hlen : (removed ++ Ring.copyOut p.page p.tail chars).length = removed.length + chars := by
    rw [hout, List.length_append, List.length_take, List.length_drop]
    omega
  refine ⟨h.head, ?_, ?_, ?_, ?_, ?_⟩
  · rw [hlen, htail]
    exact advance_mod _ _
  · omega
  · omega
  · rw [hlen, hout, List.take_add]
    exact congrArg (· ++ _) h.first
  · rw [hlen]
    exact h.holds.mono (Nat.le_add_right _ _) (Nat.le_refl _)

theorem Fifo.write (h : Fifo p inserted removed) (chunk : List Byte)
    (hroom : inserted.length + chunk.length ≤ removed.length + 4095) (hwrap : p.head + chunk.length ≤ 4096) :
    Fifo { p with
      head := advance p.head chunk.length
      page := Ring.copyIn p.page p.head chunk } (inserted ++ chunk) removed := by
  have hle := h.le
  have hhead := h.head
  have hlen : (inserted ++ chunk).length = inserted.length + chunk.length := List.length_append
  refine ⟨?_, h.tail, by omega, by omega, ?_, ?_⟩
  · rw [hlen, hhead]
    exact advance_mod _ _
  · rw [List.take_append_of_le_length hle]
    exact h.first
  · rw [hhead] at hwrap ⊢
    exact h.holds.copyIn chunk hwrap (by omega)

/-! ## The calls -/

def Call.Ok : Call → Prop
  | .read asked c => c.buf.length + c.count = asked
  | .write data c => c.rest = data.drop c.written ∧ c.written ≤ data.length

/-- What was moved is reported, or nothing was, the pipe was full and there was nobody to
read it, and the task has got the signal; and it is all that was asked if both ends are
open. -/
def Report.Ok (r : Report) : Prop :=
  (r.result = r.moved.length ∨
    r.write = true ∧ r.moved = [] ∧ r.result = -1 ∧ r.both = false ∧ r.full = true ∧ r.sigpipe = true) ∧
  (r.both = true → r.result = r.asked)

/-- The invariant. -/
structure Inv (s : State) : Prop where
  fifo  : Fifo s.pipe s.inserted s.removed
  calls : ∀ t c, s.call t = some c → c.Ok
  log   : ∀ r, r ∈ s.log → r.Ok

variable {s s' : State}

theorem Inv.setCall (h : Inv s) (t : Nat) {c : Option Call} (hc : ∀ c', c = some c' → c'.Ok) :
    Inv (s.setCall t c) := by
  refine ⟨h.fifo, fun t' c' hc' => ?_, h.log⟩
  change Function.update s.call t c t' = some c' at hc'
  by_cases ht : t' = t
  · rw [ht, Function.update_self] at hc'
    exact hc c' hc'
  · rw [Function.update_of_ne ht] at hc'
    exact h.calls t' c' hc'

theorem Inv.done (h : Inv s) (t : Nat) {r : Report} (hr : r.Ok) : Inv ((s.setCall t none).report r) := by
  obtain ⟨hfifo, hcalls, hlog⟩ := h.setCall t (c := none) fun _ hc => by cases hc
  refine ⟨hfifo, hcalls, fun r' hr' => ?_⟩
  rcases List.mem_append.mp hr' with hr' | hr'
  · exact hlog r' hr'
  · rw [List.mem_singleton.mp hr']
    exact hr

/-- A round of `read_pipe` returns, sleeps or copies. -/
theorem readRound_cases (p : Node) (c : Read) :
    (p.readRound c = (p, c, .returns c.buf.length) ∧ (c.count = 0 ∨ p.iCount ≠ 2)) ∨
    p.readRound c = (p, c, .sleeps) ∨
    p.readRound c = ({ p with tail := advance p.tail (p.readable c.count) },
      ⟨c.count - p.readable c.count, c.buf ++ Ring.copyOut p.page p.tail (p.readable c.count)⟩, .again) := by
  unfold Node.readRound
  split_ifs with hcount hsize hwriters
  · exact Or.inl ⟨rfl, Or.inl hcount⟩
  · exact Or.inl ⟨rfl, Or.inr hwriters⟩
  · exact Or.inr (Or.inl rfl)
  · exact Or.inr (Or.inr rfl)

theorem writeRound_cases (p : Node) (c : Write) :
    (p.writeRound c = (p, c, .returns c.written) ∧ c.rest.length = 0) ∨
    (p.writeRound c = (p, c, .broken (if c.written ≠ 0 then c.written else -1)) ∧ p.iCount ≠ 2 ∧
      pageSize - 1 - p.size = 0) ∨
    p.writeRound c = (p, c, .sleeps) ∨
    p.writeRound c = ({ p with
        head := advance p.head (p.writable c.rest.length)
        page := Ring.copyIn p.page p.head (c.rest.take (p.writable c.rest.length)) },
      ⟨c.rest.drop (p.writable c.rest.length), c.written + p.writable c.rest.length⟩, .again) := by
  unfold Node.writeRound
  by_cases hcount : c.rest.length = 0
  · rw [if_pos hcount]
    exact Or.inl ⟨rfl, hcount⟩
  · rw [if_neg hcount]
    by_cases hsize : pageSize - 1 - p.size = 0
    · rw [if_pos hsize]
      by_cases hreaders : p.iCount ≠ 2
      · rw [if_pos hreaders]
        exact Or.inr (Or.inl ⟨rfl, hreaders, hsize⟩)
      · rw [if_neg hreaders]
        exact Or.inr (Or.inr (Or.inl rfl))
    · rw [if_neg hsize]
      exact Or.inr (Or.inr (Or.inr rfl))

theorem copyOut_length (page : Nat → Byte) (i n : Nat) : (Ring.copyOut page i n).length = n := by
  induction n generalizing i with
  | zero => rfl
  | succ n ih =>
    unfold Ring.copyOut
    rw [List.length_cons, ih]

theorem Inv.read (h : Inv s) {t asked : Nat} {c : Read} (ht : s.call t = some (.read asked c)) :
    Inv (s.read t asked c) := by
  have hok : c.buf.length + c.count = asked := h.calls t _ ht
  unfold State.read
  rcases readRound_cases s.pipe c with ⟨hround, hwhy⟩ | hround | hround
  · rw [hround]
    dsimp only
    rw [List.drop_length, List.append_nil]
    refine h.done t ⟨Or.inl rfl, fun hboth => ?_⟩
    rcases hwhy with hcount | hcount
    · show (c.buf.length : Int) = asked
      omega
    · exact absurd (of_decide_eq_true hboth) hcount
  · rw [hround]
    dsimp only
    rw [List.drop_length, List.append_nil]
    refine h.setCall t fun c' hc' => ?_
    cases hc'
    exact hok
  · rw [hround]
    dsimp only
    rw [List.drop_left]
    have hsize := h.fifo.size
    have hle := h.fifo.le
    have htail := h.fifo.tail
    have hchars : s.pipe.readable c.count ≤ 4096 - s.pipe.tail ∧ s.pipe.readable c.count ≤ c.count ∧
        s.pipe.readable c.count ≤ s.pipe.size := by
      unfold Node.readable pageSize
      omega
    refine Inv.setCall (s := { s with
      pipe := { s.pipe with tail := advance s.pipe.tail (s.pipe.readable c.count) }
      removed := s.removed ++ Ring.copyOut s.pipe.page s.pipe.tail (s.pipe.readable c.count) })
      ⟨h.fifo.read (by omega) (by omega), h.calls, h.log⟩ t fun c' hc' => ?_
    cases hc'
    show (c.buf ++ _).length + (c.count - s.pipe.readable c.count) = asked
    rw [List.length_append, copyOut_length]
    omega

theorem Inv.write (h : Inv s) {t : Nat} {data : List Byte} {c : Write} (ht : s.call t = some (.write data c)) :
    Inv (s.write t data c) := by
  have hok : c.rest = data.drop c.written ∧ c.written ≤ data.length := h.calls t _ ht
  obtain ⟨hrest, hwritten⟩ := hok
  have hmoved : (data.take c.written).length = c.written := List.length_take_of_le hwritten
  unfold State.write
  -- all is written; nobody reads; it sleeps; or some of it fits
  rcases writeRound_cases s.pipe c with ⟨hround, hwhy⟩ | ⟨hround, hwhy, hfull⟩ | hround | hround
  · rw [hround]
    dsimp only
    rw [Nat.sub_self, List.take_zero, List.append_nil]
    refine h.done t ⟨Or.inl ?_, fun _ => ?_⟩
    · show (c.written : Int) = (data.take c.written).length
      rw [hmoved]
    · rw [hrest, List.length_drop] at hwhy
      show (c.written : Int) = data.length
      omega
  · rw [hround]
    dsimp only
    rw [Nat.sub_self, List.take_zero, List.append_nil]
    refine h.done t ⟨?_, fun hboth => absurd (of_decide_eq_true hboth) hwhy⟩
    by_cases hzero : c.written = 0
    · have hle := h.fifo.size
      have hroom := h.fifo.room
      have hsize : s.pipe.size = pageSize - 1 := by
        unfold pageSize at hfull ⊢
        omega
      refine Or.inr ⟨rfl, ?_, ?_, decide_eq_false hwhy, decide_eq_true hsize, rfl⟩
      · show data.take c.written = []
        rw [hzero, List.take_zero]
      · exact if_neg (not_not.mpr hzero)
    · refine Or.inl ?_
      show (if c.written ≠ 0 then (c.written : Int) else -1) = (data.take c.written).length
      rw [if_pos hzero, hmoved]
  · rw [hround]
    dsimp only
    rw [Nat.sub_self, List.take_zero, List.append_nil]
    refine h.setCall t fun c' hc' => ?_
    cases hc'
    exact ⟨hrest, hwritten⟩
  · rw [hround]
    dsimp only
    rw [Nat.add_sub_cancel_left]
    have hsize := h.fifo.size
    have hle := h.fifo.le
    have hhead := h.fifo.head
    have hchars : s.pipe.writable c.rest.length ≤ 4096 - s.pipe.head ∧
        s.pipe.writable c.rest.length ≤ c.rest.length ∧
        s.pipe.writable c.rest.length ≤ 4095 - s.pipe.size := by
      unfold Node.writable pageSize
      omega
    have hroom := h.fifo.room
    have hlen : (c.rest.take (s.pipe.writable c.rest.length)).length = s.pipe.writable c.rest.length :=
      List.length_take_of_le hchars.2.1
    have hfifo := h.fifo.write (c.rest.take (s.pipe.writable c.rest.length)) (by omega) (by omega)
    rw [hlen] at hfifo
    refine Inv.setCall (s := { s with
      pipe := { s.pipe with
        head := advance s.pipe.head (s.pipe.writable c.rest.length)
        page := Ring.copyIn s.pipe.page s.pipe.head (c.rest.take (s.pipe.writable c.rest.length)) }
      inserted := s.inserted ++ c.rest.take (s.pipe.writable c.rest.length) })
      ⟨hfifo, h.calls, h.log⟩ t fun c' hc' => ?_
    cases hc'
    refine ⟨?_, ?_⟩
    · show c.rest.drop _ = data.drop (c.written + _)
      rw [← List.drop_drop, ← hrest]
    · have hrestlen : c.rest.length = data.length - c.written := by rw [hrest, List.length_drop]
      show c.written + s.pipe.writable c.rest.length ≤ data.length
      omega

theorem inv_step (h : Inv s) (hs : Step s s') : Inv s' := by
  cases hs with
  | startRead t asked ht =>
    refine h.setCall t fun c hc => ?_
    cases hc
    exact Nat.zero_add asked
  | startWrite t data ht =>
    refine h.setCall t fun c hc => ?_
    cases hc
    exact ⟨rfl, Nat.zero_le _⟩
  | read t asked c ht => exact h.read ht
  | write t data c ht => exact h.write ht
  | close => exact ⟨⟨h.fifo.head, h.fifo.tail, h.fifo.le, h.fifo.room, h.fifo.first, h.fifo.holds⟩, h.calls, h.log⟩

theorem inv_fresh (page : Nat → Byte) : Inv (fresh page) :=
  ⟨⟨rfl, rfl, Nat.le_refl _, Nat.zero_le _, rfl, fun k _ hk => absurd hk (Nat.not_lt_zero k)⟩,
    fun _ _ hc => (by cases hc), fun _ hr => (by cases hr)⟩

theorem inv_reach {page : Nat → Byte} (hrun : Reach (fresh page) s) : Inv s := by
  induction hrun with
  | refl => exact inv_fresh page
  | tail _ hs ih => exact inv_step ih hs

/-- **A pipe is a lossless queue.** For any number of readers and writers: what is taken
out is the first part of what was put in, the rest is in the pipe and fits; a call reports
what it moved, except that a write that moves nothing because the pipe is full and has no
reader raises `SIGPIPE` and is told -1; and it moves all if both ends are open. -/
theorem pipe_fifo {page : Nat → Byte} (hrun : Reach (fresh page) s) :
    (s.removed <+: s.inserted ∧ s.inserted.length = s.removed.length + s.pipe.size) ∧
    s.pipe.size ≤ 4095 ∧ s.pipe.head < 4096 ∧ s.pipe.tail < 4096 ∧
    ∀ r, r ∈ s.log →
      (r.result = r.moved.length ∨
        r.write = true ∧ r.moved = [] ∧ r.result = -1 ∧ r.both = false ∧ r.full = true ∧ r.sigpipe = true) ∧
      (r.both = true → r.result = r.asked) := by
  obtain ⟨hfifo, -, hlog⟩ := inv_reach hrun
  have hsize := hfifo.size
  have hle := hfifo.le
  have hroom := hfifo.room
  refine ⟨⟨?_, by omega⟩, by omega, ?_, ?_, hlog⟩
  · rw [hfifo.first]
    exact List.take_prefix _ _
  · rw [hfifo.head]
    exact Nat.mod_lt _ (by decide)
  · rw [hfifo.tail]
    exact Nat.mod_lt _ (by decide)

-- Task 1 sleeps in `read_pipe`, task 0 writes three bytes, and task 1 takes two of them.
def handedOver : State :=
  (((((((fresh fun _ => 0).setCall 1 (some (.read 2 ⟨2, []⟩))).read 1 2 ⟨2, []⟩).setCall 0
    (some (.write [7, 8, 9] ⟨[7, 8, 9], 0⟩))).write 0 [7, 8, 9] ⟨[7, 8, 9], 0⟩).read 1 2 ⟨2, []⟩).write 0
      [7, 8, 9] ⟨[], 3⟩).read 1 2 ⟨0, [7, 8]⟩

theorem reach_handedOver : Reach (fresh fun _ => 0) handedOver :=
  .tail (.tail (.tail (.tail (.tail (.tail (.single (.startRead 1 2 rfl)) (.read 1 2 ⟨2, []⟩ rfl))
    (.startWrite 0 [7, 8, 9] rfl)) (.write 0 [7, 8, 9] ⟨[7, 8, 9], 0⟩ rfl)) (.read 1 2 ⟨2, []⟩ rfl))
    (.write 0 [7, 8, 9] ⟨[], 3⟩ rfl)) (.read 1 2 ⟨0, [7, 8]⟩ rfl)

/-- The writer has put in three bytes and the reader has taken two of them. -/
theorem pipe_fifo_handedOver : handedOver.log.map (·.result) = [3, 2] ∧ handedOver.removed = [7, 8] ∧
    handedOver.removed <+: handedOver.inserted ∧ ∀ r, r ∈ handedOver.log → r.both = true → r.result = r.asked :=
  ⟨rfl, rfl, (pipe_fifo reach_handedOver).1.1, fun r hr => ((pipe_fifo reach_handedOver).2.2.2.2 r hr).2⟩

/-- A round that fills an empty pipe. -/
theorem writeRound_full (page : Nat → Byte) {data : List Byte} (hdata : data.length = 4095) :
    Node.writeRound ⟨page, 0, 0, 2⟩ ⟨data, 0⟩ =
      (⟨Ring.copyIn page 0 data, 4095, 0, 2⟩, ⟨[], 4095⟩, .again) := by
  have hchars : Node.writable ⟨page, 0, 0, 2⟩ data.length = 4095 := by
    rw [hdata]
    rfl
  have hsize : Node.size ⟨page, 0, 0, 2⟩ = 0 := rfl
  unfold Node.writeRound
  dsimp only
  rw [if_neg (by omega), if_neg (by rw [hsize]; decide), hchars, List.take_of_length_le (by omega),
    List.drop_eq_nil_of_le (by omega)]
  rfl

/-- The pipe is full and the reader is gone: a writer has written nothing, and is told -1. -/
theorem write_pipe_error : ¬ ∀ s : State, Reach (fresh fun _ => 0) s →
    ∀ r, r ∈ s.log → r.result = r.moved.length := by
  intro h
  let data : List Byte := List.replicate 4095 0
  let full : State := ⟨⟨Ring.copyIn (fun _ => 0) 0 data, 4095, 0, 2⟩,
    Function.update (Function.update (fun _ => none) 0 (some (.write data ⟨data, 0⟩))) 0
      (some (.write data ⟨[], 4095⟩)), data, [], []⟩
  have hstep : ((fresh fun _ => 0).setCall 0 (some (.write data ⟨data, 0⟩))).write 0 data ⟨data, 0⟩ = full := by
    have hlen : data.length = 4095 := List.length_replicate
    unfold State.write
    rw [show ((fresh fun _ => 0).setCall 0 (some (.write data ⟨data, 0⟩))).pipe = ⟨fun _ => 0, 0, 0, 2⟩ from rfl,
      writeRound_full _ hlen]
    dsimp only
    rw [List.take_of_length_le (by omega)]
    rfl
  have hfull : Reach (fresh fun _ => 0) full :=
    .tail (.single (.startWrite 0 data rfl)) (hstep ▸ .write 0 data ⟨data, 0⟩ rfl)
  have hrun := hfull.tail .close |>.tail (.startWrite 1 [0] rfl) |>.tail (.write 1 [0] ⟨[0], 0⟩ rfl)
  have hbad := h _ hrun ⟨true, 1, [], -1, false, true, true⟩ (List.mem_singleton.mpr rfl)
  cases hbad

/-! ## Page faults in the copy -/

/-- One call of each function, that may be suspended after each byte. Of the reader:
`count`, the bytes stored, and the slots still to be copied in this round (`size` and
`chars`). Of the writer: the bytes it has not copied yet, how many it has not taken, and
the slots. -/
structure Copy where
  pipe  : Node
  count : Nat
  buf   : List Byte
  rslot : Nat
  rleft : Nat
  rest  : List Byte
  todo  : Nat
  wslot : Nat
  wleft : Nat

/-- The calls go on. A call that waits, or has returned, does nothing here. `mayLoad` and
`mayStore` restrict the copies of single bytes. -/
inductive Copies (mayLoad mayStore : Copy → Prop) : Copy → Copy → Prop
  /-- `read_pipe` moves the tail. -/
  | take {c : Copy} (hdone : c.rleft = 0) (hcount : 0 < c.count) (hsize : c.pipe.size ≠ 0) :
      Copies mayLoad mayStore c { c with
        pipe := { c.pipe with tail := advance c.pipe.tail (c.pipe.readable c.count) }
        count := c.count - c.pipe.readable c.count
        rslot := c.pipe.tail
        rleft := c.pipe.readable c.count }
  /-- `put_fs_byte`. -/
  | load {c : Copy} (hallow : mayLoad c) (hleft : 0 < c.rleft) :
      Copies mayLoad mayStore c { c with
        buf := c.buf ++ [c.pipe.page c.rslot]
        rslot := c.rslot + 1
        rleft := c.rleft - 1 }
  /-- `write_pipe` moves the head. -/
  | put {c : Copy} (hdone : c.wleft = 0) (htodo : 0 < c.todo) (hroom : pageSize - 1 - c.pipe.size ≠ 0) :
      Copies mayLoad mayStore c { c with
        pipe := { c.pipe with head := advance c.pipe.head (c.pipe.writable c.todo) }
        todo := c.todo - c.pipe.writable c.todo
        wslot := c.pipe.head
        wleft := c.pipe.writable c.todo }
  /-- `get_fs_byte`. -/
  | store {c : Copy} {b : Byte} {rest : List Byte} (hallow : mayStore c) (hleft : 0 < c.wleft)
      (hrest : c.rest = b :: rest) :
      Copies mayLoad mayStore c { c with
        pipe := { c.pipe with page := Function.update c.pipe.page c.wslot b }
        rest := rest
        wslot := c.wslot + 1
        wleft := c.wleft - 1 }

abbrev Copied (mayLoad mayStore : Copy → Prop) : Copy → Copy → Prop :=
  Relation.ReflTransGen (Copies mayLoad mayStore)

/-- Two calls on a pipe. -/
def start (pipe : Node) (count : Nat) (data : List Byte) : Copy :=
  ⟨pipe, count, [], 0, 0, data, data.length, 0, 0⟩

/-- The writer does not have the reader's next slot still to copy. -/
def LoadClear (c : Copy) : Prop := ¬ (c.wslot ≤ c.rslot ∧ c.rslot < c.wslot + c.wleft)

/-- The reader does not have the writer's next slot still to copy. -/
def StoreClear (c : Copy) : Prop := ¬ (c.rslot ≤ c.wslot ∧ c.wslot < c.rslot + c.rleft)

/-- The invariant: the reader has copied the stream up to `r`, the writer up to `w`, and
both have taken as much more as they have left. -/
structure Stream (stream : List Byte) (r₀ : Nat) (c : Copy) (r w : Nat) : Prop where
  buf   : c.buf = (stream.drop r₀).take c.buf.length
  pos   : r = r₀ + c.buf.length
  rest  : c.rest = stream.drop w
  len   : w + c.rest.length = stream.length
  todo  : c.wleft + c.todo = c.rest.length
  tail  : c.pipe.tail = (r + c.rleft) % 4096
  head  : c.pipe.head = (w + c.wleft) % 4096
  rslot : 0 < c.rleft → c.rslot = r % 4096 ∧ c.rslot + c.rleft ≤ 4096
  wslot : 0 < c.wleft → c.wslot = w % 4096 ∧ c.wslot + c.wleft ≤ 4096
  le    : r + c.rleft ≤ w + c.wleft
  room  : w + c.wleft ≤ r + c.rleft + 4095
  holds : Ring.Holds 4096 c.pipe.page stream r w

variable {stream : List Byte} {r₀ r w : Nat} {c c' : Copy}

theorem Stream.size (h : Stream stream r₀ c r w) : c.pipe.size = w + c.wleft - (r + c.rleft) := by
  have hle := h.le
  have hroom := h.room
  unfold Node.size
  rw [h.head, h.tail]
  omega

/-- The reader takes slots. -/
theorem Stream.take (h : Stream stream r₀ c r w) (hdone : c.rleft = 0) :
    Stream stream r₀ { c with
      pipe := { c.pipe with tail := advance c.pipe.tail (c.pipe.readable c.count) }
      count := c.count - c.pipe.readable c.count
      rslot := c.pipe.tail
      rleft := c.pipe.readable c.count } r w := by
  have hsize := h.size
  have htail := h.tail
  have hle := h.le
  have hroom := h.room
  have hchars : c.pipe.readable c.count ≤ 4096 - c.pipe.tail ∧ c.pipe.readable c.count ≤ c.pipe.size := by
    unfold Node.readable pageSize
    omega
  rw [hdone, Nat.add_zero] at htail
  refine ⟨h.buf, h.pos, h.rest, h.len, h.todo, ?_, h.head, fun _ => ⟨htail, ?_⟩, h.wslot, ?_, ?_, h.holds⟩
  · show advance c.pipe.tail _ = _
    rw [htail]
    exact advance_mod _ _
  · show c.pipe.tail + c.pipe.readable c.count ≤ 4096
    omega
  · show r + c.pipe.readable c.count ≤ w + c.wleft
    omega
  · show w + c.wleft ≤ r + c.pipe.readable c.count + 4095
    omega

/-- The writer takes slots. -/
theorem Stream.put (h : Stream stream r₀ c r w) (hdone : c.wleft = 0) :
    Stream stream r₀ { c with
      pipe := { c.pipe with head := advance c.pipe.head (c.pipe.writable c.todo) }
      todo := c.todo - c.pipe.writable c.todo
      wslot := c.pipe.head
      wleft := c.pipe.writable c.todo } r w := by
  have hsize := h.size
  have hhead := h.head
  have hle := h.le
  have hroom := h.room
  have htodo := h.todo
  have hchars : c.pipe.writable c.todo ≤ 4096 - c.pipe.head ∧ c.pipe.writable c.todo ≤ c.todo ∧
      c.pipe.writable c.todo ≤ 4095 - c.pipe.size := by
    unfold Node.writable pageSize
    omega
  rw [hdone, Nat.add_zero] at hhead
  refine ⟨h.buf, h.pos, h.rest, h.len, ?_, h.tail, ?_, h.rslot, fun _ => ⟨hhead, ?_⟩, ?_, ?_, h.holds⟩
  · show c.pipe.writable c.todo + (c.todo - c.pipe.writable c.todo) = c.rest.length
    omega
  · show advance c.pipe.head _ = _
    rw [hhead]
    exact advance_mod _ _
  · show c.pipe.head + c.pipe.writable c.todo ≤ 4096
    omega
  · show r + c.rleft ≤ w + c.pipe.writable c.todo
    omega
  · show w + c.pipe.writable c.todo ≤ r + c.rleft + 4095
    omega

/-- The next byte was copied into its slot, and nothing else was since. -/
theorem Stream.load (h : Stream stream r₀ c r w) (hclear : LoadClear c) (hleft : 0 < c.rleft) :
    Stream stream r₀ { c with
      buf := c.buf ++ [c.pipe.page c.rslot]
      rslot := c.rslot + 1
      rleft := c.rleft - 1 } (r + 1) w := by
  obtain ⟨hslot, hwrap⟩ := h.rslot hleft
  have hpos := h.pos
  have htail := h.tail
  have hle := h.le
  have hroom := h.room
  have hwritten : r < w := by
    by_contra hge
    obtain ⟨hwslot, hwwrap⟩ := h.wslot (by omega)
    refine hclear ⟨?_, ?_⟩
    · omega
    · omega
  have hbyte : stream[r]? = some (c.pipe.page c.rslot) := by
    rw [hslot]
    exact h.holds r (Nat.le_refl r) hwritten
  have hlen : (c.buf ++ [c.pipe.page c.rslot]).length = c.buf.length + 1 := by simp
  refine ⟨?_, ?_, h.rest, h.len, h.todo, ?_, h.head, fun hmore => ?_, h.wslot, ?_, ?_,
    h.holds.mono (Nat.le_succ r) (Nat.le_refl w)⟩
  · show c.buf ++ [c.pipe.page c.rslot] = _
    rw [hlen, List.take_add_one, List.getElem?_drop, ← hpos, hbyte, ← h.buf]
    rfl
  · show r + 1 = r₀ + (c.buf ++ [c.pipe.page c.rslot]).length
    omega
  · show c.pipe.tail = (r + 1 + (c.rleft - 1)) % 4096
    rw [htail]
    congr 1
    omega
  · replace hmore : 0 < c.rleft - 1 := hmore
    show c.rslot + 1 = (r + 1) % 4096 ∧ c.rslot + 1 + (c.rleft - 1) ≤ 4096
    omega
  · show r + 1 + (c.rleft - 1) ≤ w + c.wleft
    omega
  · show w + c.wleft ≤ r + 1 + (c.rleft - 1) + 4095
    omega

/-- No byte that was not read is in the slot. -/
theorem Stream.store (h : Stream stream r₀ c r w) (hclear : StoreClear c) (hleft : 0 < c.wleft) {b : Byte}
    {rest : List Byte} (hrest : c.rest = b :: rest) :
    Stream stream r₀ { c with
      pipe := { c.pipe with page := Function.update c.pipe.page c.wslot b }
      rest := rest
      wslot := c.wslot + 1
      wleft := c.wleft - 1 } r (w + 1) := by
  obtain ⟨hslot, hwrap⟩ := h.wslot hleft
  have hhead := h.head
  have hle := h.le
  have hroom := h.room
  have hlen := h.len
  have htodo := h.todo
  rw [hrest, List.length_cons] at hlen htodo
  have hdrop : stream.drop w = b :: rest := h.rest.symm.trans hrest
  have hbyte : stream[w]? = some b := by
    have hget : (stream.drop w)[0]? = some b := by rw [hdrop]; rfl
    rw [List.getElem?_drop, Nat.add_zero] at hget
    exact hget
  have hfree : ∀ k, r ≤ k → k < w → k % 4096 ≠ w % 4096 := by
    intro k h₁ h₂
    by_cases hk : k < r + c.rleft
    · obtain ⟨hrslot, hrwrap⟩ := h.rslot (by omega)
      intro heq
      refine hclear ⟨?_, ?_⟩
      · omega
      · omega
    · exact Ring.slot_ne h₂ (by omega)
  refine ⟨h.buf, h.pos, ?_, ?_, ?_, h.tail, ?_, h.rslot, fun hmore => ?_, ?_, ?_, ?_⟩
  · show rest = stream.drop (w + 1)
    rw [← List.drop_drop, hdrop]
    rfl
  · show w + 1 + rest.length = stream.length
    omega
  · show c.wleft - 1 + c.todo = rest.length
    omega
  · show c.pipe.head = (w + 1 + (c.wleft - 1)) % 4096
    rw [hhead]
    congr 1
    omega
  · replace hmore : 0 < c.wleft - 1 := hmore
    show c.wslot + 1 = (w + 1) % 4096 ∧ c.wslot + 1 + (c.wleft - 1) ≤ 4096
    omega
  · show r + c.rleft ≤ w + 1 + (c.wleft - 1)
    omega
  · show w + 1 + (c.wleft - 1) ≤ r + c.rleft + 4095
    omega
  · show Ring.Holds 4096 (Function.update c.pipe.page c.wslot b) stream r (w + 1)
    rw [hslot]
    exact h.holds.store hbyte hfree

theorem stream_step (h : Stream stream r₀ c r w) (hs : Copies LoadClear StoreClear c c') :
    ∃ r' w', Stream stream r₀ c' r' w' := by
  cases hs with
  | take hdone _ _ => exact ⟨r, w, h.take hdone⟩
  | load hclear hleft => exact ⟨r + 1, w, h.load hclear hleft⟩
  | put hdone _ _ => exact ⟨r, w, h.put hdone⟩
  | store hclear hleft hrest => exact ⟨r, w + 1, h.store hclear hleft hrest⟩

/-- Two calls begin on a pipe that other calls have used. -/
theorem stream_start (h : Fifo p inserted removed) (count : Nat) (data : List Byte) :
    Stream (inserted ++ data) removed.length (start p count data) removed.length inserted.length := by
  refine ⟨?_, rfl, ?_, ?_, Nat.zero_add _, h.tail, h.head, fun h => absurd h (Nat.lt_irrefl 0),
    fun h => absurd h (Nat.lt_irrefl 0), h.le, h.room, h.holds.append data⟩
  · exact (List.take_zero).symm
  · exact List.drop_left.symm
  · exact List.length_append.symm

/-- **The copies do not meet.** If a call, suspended in its copy, has none of the slots still to
copy that the other copies: the reader stores the bytes of the stream, from the first that
was not read. -/
theorem copy_survives {page : Nat → Byte} (hrun : Reach (fresh page) s) {count : Nat} {data : List Byte}
    (hcopied : Copied LoadClear StoreClear (start s.pipe count data) c) :
    c.buf = ((s.inserted ++ data).drop s.removed.length).take c.buf.length := by
  have hstream : ∃ r w, Stream (s.inserted ++ data) s.removed.length c r w := by
    induction hcopied with
    | refl => exact ⟨_, _, stream_start (inv_reach hrun).fifo count data⟩
    | tail _ hs ih =>
      obtain ⟨r, w, h⟩ := ih
      exact stream_step h hs
  obtain ⟨r, w, h⟩ := hstream
  exact h.buf

/-- A byte is written and read. -/
theorem copy_survives_one : (⟨⟨Function.update (fun _ => 0) 0 7, 1, 1, 2⟩, 0, [7], 1, 0, [], 0, 1, 0⟩ : Copy).buf =
    (([] ++ [7] : List Byte).drop 0).take 1 := by
  have hcopied : Copied LoadClear StoreClear (start (fresh fun _ => 0).pipe 1 [7])
      ⟨⟨Function.update (fun _ => 0) 0 7, 1, 1, 2⟩, 0, [7], 1, 0, [], 0, 1, 0⟩ :=
    .tail (.tail (.tail (.single (.put rfl (by decide) (by decide)))
      (.store (fun h => absurd h.2 (by decide)) (by decide) rfl)) (.take rfl (by decide) (by decide)))
      (.load (fun h => absurd h.1 (by decide)) (by decide))
  exact copy_survives .refl hcopied

/-- The writer is suspended before its first byte, and the reader takes what was in the page. -/
theorem stale_read : ¬ ∀ c : Copy, Copied (fun _ => True) (fun _ => True) (start (fresh fun _ => 0).pipe 1 [7]) c →
    c.buf = (([] ++ [7] : List Byte).drop 0).take c.buf.length := by
  intro h
  have hcopied : Copied (fun _ => True) (fun _ => True) (start (fresh fun _ => 0).pipe 1 [7])
      ⟨⟨fun _ => 0, 1, 1, 2⟩, 0, [0], 1, 0, [7], 0, 0, 1⟩ :=
    .tail (.tail (.single (.put rfl (by decide) (by decide))) (.take rfl (by decide) (by decide)))
      (.load trivial (by decide))
  have hbad := h _ hcopied
  revert hbad
  decide

end Linux011.Fs.Pipe
