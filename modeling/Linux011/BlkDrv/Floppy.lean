import Linux011.Lib.Along
import Linux011.BlkDrv.HardDisk

/-!
# The floppy — `kernel/blk_drv/floppy.c`

`do_fd_request` sets a timer for the motor of the first request's drive; `transfer`, the seek
interrupt and the interrupt of the transfer follow. `do_floppy` says which routine the next
interrupt runs. Bytes are given to the controller with `output_byte`, and its answer is read
with `result`; when either fails `reset` is set, and `do_fd_request` resets.

An `Event` is an interrupt or a timer that runs out, with what the controller does then: how
many bytes it takes, and what it replies. What DMA transfers is left out, and so is the time
the motor needs. The timer table has room for a timer, and buffers are locked while their
requests are queued.
-/

namespace Linux011.BlkDrv.Floppy

open Linux011.Lib
open Hd (Fault)

/-- `struct request`, as the hard disk driver has it. -/
abbrev Request := Hd.Request

def maxErrors : Nat := 8

def maxReplies : Nat := 7

def fdSensei : Nat := 0x08
def fdSpecify : Nat := 0x03
def fdSeek : Nat := 0x0F
def fdRecalibrate : Nat := 0x07
def fdRead : Nat := 0xE6
def fdWrite : Nat := 0xC5

/-- `struct floppy_struct`. -/
structure FloppyStruct where
  size    : Nat
  sect    : Nat
  head    : Nat
  track   : Nat
  stretch : Nat
  gap     : Nat
  rate    : Nat
  spec1   : Nat
  deriving DecidableEq, Repr

/-- What `do_floppy` points to. -/
inductive Handler
  | rwInterrupt
  | seekInterrupt
  | recalInterrupt
  | resetInterrupt
  deriving DecidableEq, Repr

/-- What a timer runs. -/
inductive Timer
  | floppyOnInterrupt
  | transfer
  deriving DecidableEq, Repr

structure State where
  queue        : List Request
  recalibrate  : Bool
  reset        : Bool
  seek         : Bool
  doFloppy     : Option Handler
  timers       : List Timer
  curSpec1     : Int
  curRate      : Int
  floppy       : FloppyStruct
  currentDrive : Nat
  sector       : Nat
  head         : Nat
  track        : Nat
  seekTrack    : Nat
  currentTrack : Nat
  command      : Nat
  selected     : Bool
  /-- The drive bits of `current_DOR`. -/
  currentDor   : Nat
  replyBuffer  : List Nat
  /-- The buffer and the command DMA is set up for. -/
  dma          : Option (Nat × Nat)
  /-- What the controller has taken. -/
  sent         : List Nat
  /-- How many bytes the controller takes; what it replies, and whether it comes to an end. -/
  takes        : Nat
  replies      : List Nat
  ends         : Bool
  /-- For the specification only: what `end_request` ended, and how. -/
  done         : List (Nat × Bool)

abbrev Drv := EStateM Fault State

/-! ## The queue -/

/-- `CURRENT`, where it is dereferenced. -/
def current : Drv Request := do
  match (← get).queue with
  | [] => throw .null
  | r :: _ => return r

/-- `end_request`. -/
def endRequest (uptodate : Bool) : Drv Unit := do
  let r ← current
  modify fun s => { s with queue := s.queue.tail, done := s.done ++ [(r.id, uptodate)] }

/-! ## The controller -/

/-- `output_byte`. -/
def State.outputByte (s : State) (byte : Nat) : State :=
  if s.reset then s
  else if s.takes = 0 then { s with reset := true }
  else { s with takes := s.takes - 1, sent := s.sent ++ [byte] }

/-- `output_byte`, of one byte after the other. -/
def State.output (s : State) (bytes : List Nat) : State := bytes.foldl State.outputByte s

def output (bytes : List Nat) : Drv Unit := modify fun s => s.output bytes

/-- What `result` leaves in `reply_buffer`: the replies, at most `MAX_REPLIES` of them, and
then what was there. -/
def State.received (s : State) : List Nat :=
  s.replies.take maxReplies ++ s.replyBuffer.drop (s.replies.take maxReplies).length

/-- `result`. There is none if `reset` is set, or becomes set. -/
def State.result (s : State) : Option Nat × State :=
  if s.reset then (none, s)
  else if s.ends ∧ s.replies.length ≤ maxReplies then
    (some s.replies.length, { s with replyBuffer := s.received })
  else (none, { s with replyBuffer := s.received, reset := true })

def result : Drv (Option Nat) := modifyGet State.result

/-- `ST0` to `ST3`. -/
def State.st (s : State) (i : Nat) : Nat := s.replyBuffer.getD i 0

/-- `floppy_deselect`. -/
def floppyDeselect : Drv Unit := modify fun s => { s with selected := false }

/-- `ticks_to_floppy_on`. -/
def State.ticksToFloppyOn (s : State) (nr : Nat) : State :=
  if s.selected then s else { s with currentDor := nr }

/-! ## `do_fd_request` -/

/-- `reset_floppy`. -/
def resetFloppy : Drv Unit := modify fun s => { s with
  reset := false
  curSpec1 := -1
  curRate := -1
  recalibrate := true
  doFloppy := some .resetInterrupt }

/-- `recalibrate_floppy`. If `reset` is set, `do_fd_request` resets. -/
def recalibrateFloppy : Drv Unit := do
  modify fun s => { s with recalibrate := false, currentTrack := 0, doFloppy := some .recalInterrupt }
  modify fun s => s.output [fdRecalibrate, s.head * 4 ||| s.currentDrive]
  if (← get).reset then
    modify fun s => { s with seek := false }
    resetFloppy

/-- `block+2 > floppy->size`, unsigned. -/
def FloppyStruct.refuses (f : FloppyStruct) (r : Request) : Bool := f.size < (r.sector + 2) % 4294967296

/-- The address of a request; a byte each. -/
def State.address (s : State) (f : FloppyStruct) (r : Request) : State :=
  let track := r.sector / f.sect / f.head % 256
  let seekTrack := (track <<< f.stretch) % 256
  { s with
    sector := (r.sector % f.sect + 1) % 256
    head := r.sector / f.sect % f.head % 256
    track := track
    seekTrack := seekTrack
    seek := if seekTrack ≠ s.currentTrack then true else s.seek }

/-- `add_timer(ticks_to_floppy_on(current_drive),&floppy_on_interrupt)`, the command set. -/
def floppyOnTimer (command : Nat) : Drv Unit := modify fun s =>
  { s.ticksToFloppyOn s.currentDrive with
    command := command
    timers := s.timers ++ [.floppyOnInterrupt] }

/-- `do_fd_request`, for a request that it does not refuse. -/
def setUp (f : FloppyStruct) (r : Request) : Drv Unit := do
  if f.sect = 0 ∨ f.head = 0 then
    throw .divide
  else
    modify fun s => s.address f r
    if r.cmd = .read then floppyOnTimer fdRead
    else if r.cmd = .write then floppyOnTimer fdWrite
    else throw .unknownCommand

/-- From `repeat` on; the requests are those that are queued. -/
def doRequests (floppyType : Nat → FloppyStruct) : List Request → Drv Unit
  | [] => return ()
  | r :: q => do
    if r.dev / 256 ≠ 2 then
      throw .requestListDestroyed
    else
      modify fun s => { s with
        floppy := floppyType (r.minor / 4)
        seek := if s.currentDrive ≠ r.dev % 4 then true else s.seek
        currentDrive := r.dev % 4 }
      if (floppyType (r.minor / 4)).refuses r then
        endRequest false
        doRequests floppyType q
      else
        setUp (floppyType (r.minor / 4)) r

/-- `do_fd_request`. -/
def doFdRequest (floppyType : Nat → FloppyStruct) : Drv Unit := do
  modify fun s => { s with seek := false }
  let s ← get
  if s.reset then resetFloppy
  else if s.recalibrate then recalibrateFloppy
  else doRequests floppyType s.queue

/-! ## Interrupts and timers -/

/-- `CURRENT->errors++`. -/
def countError : Drv Unit := do
  let r ← current
  modify fun s => { s with queue := { r with errors := r.errors + 1 } :: s.queue.tail }

/-- `bad_flp_intr`. -/
def badFlpIntr : Drv Unit := do
  countError
  let r ← current
  whenever (maxErrors < r.errors) do
    floppyDeselect
    endRequest false
  let r ← current
  if maxErrors / 2 < r.errors then modify fun s => { s with reset := true }
  else modify fun s => { s with recalibrate := true }

/-- `rw_interrupt` finds that the transfer has failed. -/
def State.rwFailed (n : Option Nat) (s : State) : Bool :=
  n ≠ some 7 || s.st 0 &&& 0xf8 ≠ 0 || s.st 1 &&& 0xbf ≠ 0 || s.st 2 &&& 0x73 ≠ 0

/-- The drive is write protected. -/
def State.writeProtected (s : State) : Bool := s.st 1 &&& 0x02 ≠ 0

/-- `rw_interrupt`, when it has failed: before `do_fd_request`. -/
def rwError : Drv Unit := do
  if (← get).writeProtected then
    floppyDeselect
    endRequest false
  else
    badFlpIntr

/-- `rw_interrupt`. A buffer may have to be copied after a read. -/
def rwInterrupt (floppyType : Nat → FloppyStruct) : Drv Unit := do
  let n ← result
  let s ← get
  if s.rwFailed n then
    rwError
    doFdRequest floppyType
  else
    whenever (s.command = fdRead) do
      let _ ← current
      return ()
    floppyDeselect
    endRequest true
    doFdRequest floppyType

/-- `setup_DMA`. -/
def setupDma : Drv Unit := do
  let r ← current
  modify fun s => { s with dma := some (r.buffer, s.command) }

/-- `setup_rw_floppy`. -/
def setupRwFloppy (floppyType : Nat → FloppyStruct) : Drv Unit := do
  setupDma
  modify fun s => { s with doFloppy := some .rwInterrupt }
  modify fun s => s.output [s.command, s.head * 4 ||| s.currentDrive, s.track, s.head, s.sector, 2,
    s.floppy.sect, s.floppy.gap, 0xFF]
  if (← get).reset then doFdRequest floppyType

/-- `seek_interrupt` finds that the seek has failed. -/
def State.seekFailed (n : Option Nat) (s : State) : Bool :=
  n ≠ some 2 || s.st 0 &&& 0xF8 ≠ 0x20 || s.st 1 ≠ s.seekTrack

/-- `seek_interrupt`. -/
def seekInterrupt (floppyType : Nat → FloppyStruct) : Drv Unit := do
  output [fdSensei]
  let n ← result
  let s ← get
  if s.seekFailed n then
    badFlpIntr
    doFdRequest floppyType
  else
    modify fun s => { s with currentTrack := s.st 1 }
    setupRwFloppy floppyType

/-- `transfer`: the spec byte and the rate of the diskette. -/
def State.specify (s : State) : State :=
  { (if s.curSpec1 ≠ s.floppy.spec1 then s.output [fdSpecify, s.floppy.spec1, 6] else s) with
    curSpec1 := s.floppy.spec1
    curRate := s.floppy.rate }

/-- `transfer`: the seek, or a recalibration when it is to track 0. -/
def State.startSeek (s : State) : State :=
  if s.seekTrack ≠ 0 then s.output [fdSeek, s.head * 4 ||| s.currentDrive, s.seekTrack]
  else s.output [fdRecalibrate, s.head * 4 ||| s.currentDrive]

/-- `transfer`. -/
def transfer (floppyType : Nat → FloppyStruct) : Drv Unit := do
  modify State.specify
  let s ← get
  if s.reset then
    doFdRequest floppyType
  else if s.seek = false then
    setupRwFloppy floppyType
  else
    modify fun s => { s with doFloppy := some .seekInterrupt }
    modify State.startSeek
    if (← get).reset then doFdRequest floppyType

/-- `result()!=2 || (ST0 & 0xE0) == 0x60`. -/
def State.senseFailed (n : Option Nat) (s : State) : Bool := n ≠ some 2 || s.st 0 &&& 0xE0 = 0x60

/-- `recal_interrupt`. -/
def recalInterrupt (floppyType : Nat → FloppyStruct) : Drv Unit := do
  output [fdSensei]
  let n ← result
  modify fun s => if s.senseFailed n then { s with reset := true } else { s with recalibrate := false }
  doFdRequest floppyType

/-- `unexpected_floppy_interrupt`. -/
def unexpectedFloppyInterrupt : Drv Unit := do
  output [fdSensei]
  let n ← result
  modify fun s => if s.senseFailed n then { s with reset := true } else { s with recalibrate := true }

/-- `reset_interrupt`. -/
def resetInterrupt (floppyType : Nat → FloppyStruct) : Drv Unit := do
  output [fdSensei]
  let _ ← result
  modify fun s => s.output [fdSpecify, (s.curSpec1 % 256).toNat, 6]
  doFdRequest floppyType

/-- `floppy_on_interrupt`. -/
def floppyOnInterrupt (floppyType : Nat → FloppyStruct) : Drv Unit := do
  modify fun s => { s with selected := true }
  let s ← get
  if s.currentDrive ≠ s.currentDor then
    modify fun s => { s with currentDor := s.currentDrive, timers := s.timers ++ [.transfer] }
  else
    transfer floppyType

inductive Cause
  | interrupt
  | timer (i : Nat)

/-- What happens, and what the controller does then. -/
structure Event where
  cause   : Cause
  takes   : Nat
  replies : List Nat
  ends    : Bool

def State.meet (s : State) (e : Event) : State :=
  { s with takes := e.takes, replies := e.replies, ends := e.ends }

def interrupt (floppyType : Nat → FloppyStruct) : Option Handler → Drv Unit
  | none => unexpectedFloppyInterrupt
  | some .rwInterrupt => rwInterrupt floppyType
  | some .seekInterrupt => seekInterrupt floppyType
  | some .recalInterrupt => recalInterrupt floppyType
  | some .resetInterrupt => resetInterrupt floppyType

def runTimer (floppyType : Nat → FloppyStruct) : Option Timer → Drv Unit
  | none => return ()
  | some .floppyOnInterrupt => floppyOnInterrupt floppyType
  | some .transfer => transfer floppyType

/-- One event. A timer that is not set does not run out. -/
def step (floppyType : Nat → FloppyStruct) (e : Event) : Drv Unit := do
  modify fun s => s.meet e
  let s ← get
  match e.cause with
  | .interrupt =>
    modify fun s => { s with doFloppy := none }
    interrupt floppyType s.doFloppy
  | .timer i =>
    modify fun s => { s with timers := s.timers.eraseIdx i }
    runTimer floppyType s.timers[i]?

/-- `do_fd_request` is called, and then `n` events happen. -/
def after (floppyType : Nat → FloppyStruct) (o : Nat → Event) : Nat → Drv Unit
  | 0 => doFdRequest floppyType
  | n + 1 => do
    after floppyType o n
    step floppyType (o n)

/-! ## Rules -/

/-- What the controller does leaves the queue alone, and what is waited for. -/
structure Frame (s t : State) : Prop where
  queue    : t.queue = s.queue
  done     : t.done = s.done
  timers   : t.timers = s.timers
  doFloppy : t.doFloppy = s.doFloppy

theorem Frame.trans {s t u : State} (h : Frame s t) (h' : Frame t u) : Frame s u :=
  ⟨h'.queue.trans h.queue, h'.done.trans h.done, h'.timers.trans h.timers, h'.doFloppy.trans h.doFloppy⟩

theorem frame_outputByte (s : State) (byte : Nat) : Frame s (s.outputByte byte) := by
  unfold State.outputByte
  split
  · exact ⟨rfl, rfl, rfl, rfl⟩
  · split <;> exact ⟨rfl, rfl, rfl, rfl⟩

theorem frame_output (s : State) (bytes : List Nat) : Frame s (s.output bytes) := by
  induction bytes generalizing s with
  | nil => exact ⟨rfl, rfl, rfl, rfl⟩
  | cons byte bytes ih => exact (frame_outputByte s byte).trans (ih (s.outputByte byte))

theorem frame_specify (s : State) : Frame s s.specify := by
  have hsent := frame_output s [fdSpecify, s.floppy.spec1, 6]
  unfold State.specify
  split
  · exact ⟨hsent.queue, hsent.done, hsent.timers, hsent.doFloppy⟩
  · exact ⟨rfl, rfl, rfl, rfl⟩

theorem frame_startSeek (s : State) : Frame s s.startSeek := by
  unfold State.startSeek
  split <;> exact frame_output s _

theorem frame_result (s : State) : Frame s s.result.2 := by
  unfold State.result
  split
  · exact ⟨rfl, rfl, rfl, rfl⟩
  · split <;> exact ⟨rfl, rfl, rfl, rfl⟩

theorem frame_ticksToFloppyOn (s : State) (nr : Nat) : Frame s (s.ticksToFloppyOn nr) := by
  unfold State.ticksToFloppyOn
  split <;> exact ⟨rfl, rfl, rfl, rfl⟩

variable {s : State} {r : Request} {q : List Request} {E : Fault → State → Prop} {Q : Unit → State → Prop}

theorem wp_current (h : s.queue = r :: q) {Q : Request → State → Prop} : wp current Q E s ↔ Q r s := by
  unfold current
  rw [wp_bind, wp_get, h]
  exact Iff.rfl

theorem wp_current_nil (h : s.queue = []) {Q : Request → State → Prop} :
    wp current Q E s ↔ E .null s := by
  unfold current
  rw [wp_bind, wp_get, h]
  exact Iff.rfl

theorem wp_countError (h : s.queue = r :: q) : wp countError Q E s ↔
    Q () { s with queue := { r with errors := r.errors + 1 } :: q } := by
  unfold countError
  rw [wp_bind, wp_current h, wp_modify, h]
  exact Iff.rfl

theorem wp_endRequest (h : s.queue = r :: q) (uptodate : Bool) : wp (endRequest uptodate) Q E s ↔
    Q () { s with queue := q, done := s.done ++ [(r.id, uptodate)] } := by
  unfold endRequest
  rw [wp_bind, wp_current h, wp_modify, h]
  exact Iff.rfl

theorem wp_result {Q : Option Nat → State → Prop} : wp result Q E s ↔ Q s.result.1 s.result.2 := Iff.rfl

end Linux011.BlkDrv.Floppy
