import Mathlib.Logic.Function.Basic
import Linux011.Lib.Wp
import Linux011.BlkDrv.Request

/-!
# The hard disk — `kernel/blk_drv/hd.c`

The driver works on the request at the head of its queue. A command is given to the
controller with `hd_out`; `do_hd` says which routine its interrupt runs, and that routine
calls `do_hd_request` again. After `WIN_WRITE` the driver polls for DRQ. What the
controller answers is an `Outcome`, one at a time.

The controller works on the sectors of two drives, from the address it was given on. A
sector is a value of any type; `mem` is memory in units of 512 bytes. Buffers are locked
while their requests are queued (`Slots`), and the controller is ready for a command when
it gets one.

* `wp_endRequest`, `wp_hdOut`, `wp_doRequests_cons` — the rules for what the routines
  share;
* `wp_badRwIntr`, `wp_badRwIntr_limit` — an error.
-/

namespace Linux011.BlkDrv.Hd

open Linux011.Lib

def maxErrors : Nat := 7

/-- An `int` or `long` as it is compared with an `unsigned int`. -/
def unsigned (x : Int) : Nat := (x % 4294967296).toNat

/-- `++x` and `--x`, of an `unsigned long`. -/
def up (x : Nat) : Nat := if x = 4294967295 then 0 else x + 1

def down (x : Nat) : Nat := if x = 0 then 4294967295 else x - 1

/-- `struct hd_i_struct`, the geometry. -/
structure Info where
  head : Nat
  sect : Nat
  cyl  : Nat
  deriving DecidableEq, Repr

/-- `struct hd_struct`. -/
structure Part where
  startSect : Int
  nrSects   : Int
  deriving DecidableEq, Repr

/-- `NR_HD`, `hd_info` and `hd`, as `sys_setup` leaves them. -/
structure Disks where
  nrHd   : Nat
  hdInfo : Nat → Info
  hd     : Nat → Part

/-- `struct request`. `id` names it for the specification only. -/
structure Request where
  id        : Nat
  dev       : Nat
  cmd       : Rw
  errors    : Nat
  sector    : Nat
  nrSectors : Nat
  buffer    : Nat
  deriving DecidableEq, Repr

def Request.minor (r : Request) : Nat := r.dev % 256

/-- What `do_hd` points to. -/
inductive Handler
  | readIntr
  | writeIntr
  | recalIntr
  deriving DecidableEq, Repr

inductive Cmd
  | winRestore
  | winRead
  | winWrite
  | winSpecify
  deriving DecidableEq, Repr

/-- The arguments of `hd_out`. -/
structure Command where
  drive : Nat
  nsect : Nat
  sect  : Nat
  head  : Nat
  cyl   : Nat
  cmd   : Cmd
  deriving DecidableEq, Repr

/-- What its ports take: a byte each for the count and the sector, and two for the cylinder. -/
def Command.ports (c : Command) : Command :=
  { c with nsect := c.nsect % 256, sect := c.sect % 256, cyl := c.cyl % 65536 }

variable {β : Type}

/-- What the controller is at: a sector of a drive, and what is to be written there. -/
structure Job (β : Type) where
  write : Bool
  drive : Nat
  pos   : Nat
  data  : Option β

structure State (β : Type) where
  queue       : List Request
  reset       : Bool
  recalibrate : Bool
  doHd        : Option Handler
  /-- `do_hd_request` waits for DRQ. -/
  polling     : Bool
  /-- The last command, as it came through the ports. -/
  command     : Option Command
  job         : Option (Job β)
  disk        : Nat → Nat → β
  mem         : Nat → β
  /-- For the specification only: what `end_request` ended, and how. -/
  done        : List (Nat × Bool)

/-- `CURRENT` is a null pointer; a division by zero; a panic. -/
inductive Fault
  | null
  | divide
  | requestListDestroyed
  | badSector
  | unknownCommand
  deriving DecidableEq, Repr

abbrev Drv (β : Type) := EStateM Fault (State β)

/-- What the controller answers: that it could do it, or that it could not, which leaves
`junk` in a sector it was writing. When polled, that DRQ is set or is not. -/
inductive Outcome (β : Type)
  | ok
  | error (junk : β)

def Outcome.isError : Outcome β → Bool
  | .ok => false
  | .error _ => true

/-! ## The queue -/

/-- `CURRENT`, where it is dereferenced. -/
def current : Drv β Request := do
  match (← get).queue with
  | [] => throw .null
  | r :: _ => return r

def setCurrent (f : Request → Request) : Drv β Unit := do
  let r ← current
  modify fun s => { s with queue := f r :: s.queue.tail }

/-- `end_request`. -/
def endRequest (uptodate : Bool) : Drv β Unit := do
  let r ← current
  modify fun s => { s with queue := s.queue.tail, done := s.done ++ [(r.id, uptodate)] }

/-! ## The controller -/

/-- The sector an address is of. -/
def Info.number (i : Info) (sect head cyl : Nat) : Nat := (cyl * i.head + head) * i.sect + sect - 1

/-- It gets a command. -/
def jobOf (D : Disks) (c : Command) : Option (Job β) :=
  match c.cmd with
  | .winRead => some ⟨false, c.drive, (D.hdInfo c.drive).number c.sect c.head c.cyl, none⟩
  | .winWrite => some ⟨true, c.drive, (D.hdInfo c.drive).number c.sect c.head c.cyl, none⟩
  | .winRestore | .winSpecify => none

def State.putDisk (s : State β) (drive pos : Nat) (x : β) : State β :=
  { s with disk := Function.update s.disk drive (Function.update (s.disk drive) pos x) }

/-- It has done what it was at, or has failed, and interrupts. -/
def State.controller (s : State β) : Outcome β → State β
  | .ok =>
    match s.job with
    | some ⟨true, drive, pos, some x⟩ =>
      { s.putDisk drive pos x with job := some ⟨true, drive, pos + 1, none⟩ }
    | _ => s
  | .error junk =>
    match s.job with
    | some ⟨true, drive, pos, some _⟩ => { s.putDisk drive pos junk with job := none }
    | _ => { s with job := none }

/-- `port_read`, of one sector. -/
def State.portRead (s : State β) (buffer : Nat) : State β :=
  match s.job with
  | some ⟨false, drive, pos, x⟩ =>
    { s with
      mem := Function.update s.mem buffer (s.disk drive pos)
      job := some ⟨false, drive, pos + 1, x⟩ }
  | _ => s

/-- `port_write`, of one sector. -/
def State.portWrite (s : State β) (buffer : Nat) : State β :=
  { s with job := s.job.map fun j => { j with data := some (s.mem buffer) } }

/-- `hd_out`. -/
def hdOut (D : Disks) (c : Command) (intrAddr : Handler) : Drv β Unit :=
  if 1 < c.drive ∨ 15 < c.head then throw .badSector
  else modify fun s => { s with doHd := some intrAddr, command := some c.ports, job := jobOf D c.ports }

/-- `reset_hd`. -/
def resetHd (D : Disks) (nr : Nat) : Drv β Unit :=
  let i := D.hdInfo nr
  hdOut D ⟨nr, i.sect, i.sect, down i.head, i.cyl, .winSpecify⟩ .recalIntr

/-! ## `do_hd_request` -/

/-- There is no such minor device, or the request is not within it. -/
def Disks.refuses (D : Disks) (r : Request) : Bool :=
  5 * D.nrHd ≤ r.minor || unsigned (D.hd r.minor).nrSects < (r.sector + 2) % 4294967296

/-- `block`, `sec`, `head` and `cyl`. -/
def Disks.block (D : Disks) (r : Request) : Nat :=
  (r.sector + unsigned (D.hd r.minor).startSect) % 4294967296

def Disks.info (D : Disks) (r : Request) : Info := D.hdInfo (r.minor / 5)

def Disks.sec (D : Disks) (r : Request) : Nat := D.block r % (D.info r).sect + 1

def Disks.head (D : Disks) (r : Request) : Nat := D.block r / (D.info r).sect % (D.info r).head

def Disks.cyl (D : Disks) (r : Request) : Nat := D.block r / (D.info r).sect / (D.info r).head

/-- The transfer a request is for. -/
def Disks.transfer (D : Disks) (r : Request) (cmd : Cmd) : Command :=
  ⟨r.minor / 5, r.nrSectors, D.sec r, D.head r, D.cyl r, cmd⟩

/-- `do_hd_request`, for a request it does not refuse. -/
def issue (D : Disks) (r : Request) : Drv β Unit := do
  let s ← get
  if (D.info r).sect = 0 ∨ (D.info r).head = 0 then
    throw .divide
  else if s.reset then
    modify fun s => { s with reset := false, recalibrate := true }
    resetHd D (r.minor / 5)
  else if s.recalibrate then
    modify fun s => { s with recalibrate := false }
    hdOut D ⟨r.minor / 5, (D.info r).sect, 0, 0, 0, .winRestore⟩ .recalIntr
  else if r.cmd = .write then
    hdOut D (D.transfer r .winWrite) .writeIntr
    modify fun s => { s with polling := true }
  else if r.cmd = .read then
    hdOut D (D.transfer r .winRead) .readIntr
  else
    throw .unknownCommand

/-- From `repeat` on; the requests are those that are queued. -/
def doRequests (D : Disks) : List Request → Drv β Unit
  | [] => return ()
  | r :: q => do
    if r.dev / 256 ≠ 3 then
      throw .requestListDestroyed
    else if D.refuses r then
      endRequest false
      doRequests D q
    else
      issue D r

/-- `do_hd_request`. -/
def doHdRequest (D : Disks) : Drv β Unit := do
  doRequests D (← get).queue

/-! ## Interrupts -/

/-- `bad_rw_intr`. -/
def badRwIntr : Drv β Unit := do
  setCurrent fun r => { r with errors := r.errors + 1 }
  let r ← current
  whenever (maxErrors ≤ r.errors) (endRequest false)
  let r ← current
  whenever (maxErrors / 2 < r.errors) (modify fun s => { s with reset := true })

/-- The bound of the polling loop is reached, or DRQ is set. -/
def drq (D : Disks) (o : Outcome β) : Drv β Unit := do
  modify fun s => { s with polling := false }
  if o.isError then
    badRwIntr
    doHdRequest D
  else
    let r ← current
    modify fun s => s.portWrite r.buffer

/-- `CURRENT->sector++`, `CURRENT->buffer += 512` and `--CURRENT->nr_sectors`. -/
def Request.advance (r : Request) : Request :=
  { r with
    sector := up r.sector
    buffer := r.buffer + 1
    nrSectors := down r.nrSectors }

/-- After a sector is read: no errors any more. -/
def Request.readOn (r : Request) : Request := { r.advance with errors := 0 }

/-- After a sector is written: `--CURRENT->nr_sectors`. -/
def Request.writtenOn (r : Request) : Request := { r with nrSectors := down r.nrSectors }

/-- `read_intr`. -/
def readIntr (D : Disks) (bad : Bool) : Drv β Unit := do
  if bad then
    badRwIntr
    doHdRequest D
  else
    let r ← current
    modify fun s => s.portRead r.buffer
    setCurrent Request.readOn
    let r ← current
    if r.nrSectors ≠ 0 then
      modify fun s => { s with doHd := some .readIntr }
    else
      endRequest true
      doHdRequest D

/-- `write_intr`. The sector and the buffer go on only if a sector is left. -/
def writeIntr (D : Disks) (bad : Bool) : Drv β Unit := do
  if bad then
    badRwIntr
    doHdRequest D
  else
    setCurrent Request.writtenOn
    let r ← current
    if r.nrSectors ≠ 0 then
      setCurrent fun r => { r with sector := up r.sector, buffer := r.buffer + 1 }
      let r ← current
      modify fun s => { s.portWrite r.buffer with doHd := some .writeIntr }
    else
      endRequest true
      doHdRequest D

/-- `recal_intr`. -/
def recalIntr (D : Disks) (bad : Bool) : Drv β Unit := do
  whenever (bad = true) badRwIntr
  doHdRequest D

/-- The routine `do_hd` points to. -/
def interrupt (D : Disks) (bad : Bool) : Handler → Drv β Unit
  | .readIntr => readIntr D bad
  | .writeIntr => writeIntr D bad
  | .recalIntr => recalIntr D bad

/-- The controller answers: the driver polls, or there is an interrupt. One that is not
expected does nothing. -/
def answer (D : Disks) (o : Outcome β) : Drv β Unit := do
  let s ← get
  if s.polling then
    drq D o
  else
    modify fun s => { s.controller o with doHd := none }
    match s.doHd with
    | none => return ()
    | some intr => interrupt D o.isError intr

/-! ## Rules -/

variable {s : State β} {r : Request} {q : List Request} {D : Disks} {E : Fault → State β → Prop}
  {Q : Unit → State β → Prop}

@[simp] theorem controller_queue (o : Outcome β) : (s.controller o).queue = s.queue := by
  unfold State.controller
  split <;> split <;> rfl

@[simp] theorem controller_done (o : Outcome β) : (s.controller o).done = s.done := by
  unfold State.controller
  split <;> split <;> rfl

@[simp] theorem controller_polling (o : Outcome β) : (s.controller o).polling = s.polling := by
  unfold State.controller
  split <;> split <;> rfl

@[simp] theorem portRead_queue (buffer : Nat) : (s.portRead buffer).queue = s.queue := by
  unfold State.portRead
  split <;> rfl

@[simp] theorem portRead_doHd (buffer : Nat) : (s.portRead buffer).doHd = s.doHd := by
  unfold State.portRead
  split <;> rfl

@[simp] theorem portRead_polling (buffer : Nat) : (s.portRead buffer).polling = s.polling := by
  unfold State.portRead
  split <;> rfl

@[simp] theorem portRead_done (buffer : Nat) : (s.portRead buffer).done = s.done := by
  unfold State.portRead
  split <;> rfl

theorem wp_current (h : s.queue = r :: q) {Q : Request → State β → Prop} : wp current Q E s ↔ Q r s := by
  unfold current
  rw [wp_bind, wp_get, h]
  exact Iff.rfl

theorem wp_current_nil (h : s.queue = []) {Q : Request → State β → Prop} :
    wp current Q E s ↔ E .null s := by
  unfold current
  rw [wp_bind, wp_get, h]
  exact Iff.rfl

theorem wp_setCurrent (h : s.queue = r :: q) (f : Request → Request) :
    wp (setCurrent f) Q E s ↔ Q () { s with queue := f r :: q } := by
  unfold setCurrent
  rw [wp_bind, wp_current h, wp_modify, h]
  exact Iff.rfl

theorem endRequest_eq (h : s.queue = r :: q) (uptodate : Bool) : endRequest uptodate s =
    .ok () { s with queue := q, done := s.done ++ [(r.id, uptodate)] } := by
  cases s
  cases h
  rfl

theorem wp_endRequest (h : s.queue = r :: q) (uptodate : Bool) : wp (endRequest uptodate) Q E s ↔
    Q () { s with queue := q, done := s.done ++ [(r.id, uptodate)] } :=
  wp_of_ok (endRequest_eq h uptodate)

theorem wp_hdOut (c : Command) (intrAddr : Handler) : wp (hdOut D c intrAddr) Q E s ↔
    if 1 < c.drive ∨ 15 < c.head then E .badSector s
    else Q () { s with doHd := some intrAddr, command := some c.ports, job := jobOf D c.ports } := by
  unfold hdOut
  split <;> exact Iff.rfl

theorem hdOut_returns {c : Command} {intrAddr : Handler} (hdrive : c.drive ≤ 1) (hhead : c.head ≤ 15)
    (hQ : Q () { s with doHd := some intrAddr, command := some c.ports, job := jobOf D c.ports }) :
    wp (hdOut D c intrAddr) Q E s := by
  rw [wp_hdOut, if_neg (by omega)]
  exact hQ

theorem wp_doRequests_cons : wp (doRequests D (r :: q)) Q E s ↔
    if r.dev / 256 ≠ 3 then E .requestListDestroyed s
    else if D.refuses r then wp (endRequest false) (fun _ s => wp (doRequests D q) Q E s) E s
    else wp (issue D r) Q E s := by
  rw [doRequests]
  split
  · exact Iff.rfl
  · split
    · exact wp_bind ..
    · exact Iff.rfl

theorem wp_doHdRequest : wp (doHdRequest D) Q E s ↔ wp (doRequests D s.queue) Q E s := by
  unfold doHdRequest
  rw [wp_bind, wp_get]

/-- A request that is not refused, on a drive with heads and sectors. -/
theorem wp_issue (hsect : 0 < (D.info r).sect) (hhead : 0 < (D.info r).head) :
    wp (issue D r) Q E s ↔
      if s.reset then wp (resetHd D (r.minor / 5)) Q E { s with reset := false, recalibrate := true }
      else if s.recalibrate then
        wp (hdOut D ⟨r.minor / 5, (D.info r).sect, 0, 0, 0, .winRestore⟩ .recalIntr) Q E
          { s with recalibrate := false }
      else if r.cmd = .write then
        wp (hdOut D (D.transfer r .winWrite) .writeIntr)
          (fun _ s => Q () { s with polling := true }) E s
      else if r.cmd = .read then wp (hdOut D (D.transfer r .winRead) .readIntr) Q E s
      else E .unknownCommand s := by
  unfold issue
  rw [wp_bind, wp_get, if_neg (by omega)]
  split
  · exact wp_bind ..
  · split
    · exact wp_bind ..
    · split
      · exact wp_bind ..
      · split <;> exact Iff.rfl

theorem wp_resetIf (c : Prop) [Decidable c] :
    wp (whenever c (modify fun s : State β => { s with reset := true })) Q E s ↔
      Q () { s with reset := if c then true else s.reset } := by
  rw [wp_whenever]
  by_cases hc : c
  · rw [if_pos hc, if_pos hc, wp_modify]
  · rw [if_neg hc, if_neg hc]

/-- An error, and more may come. -/
theorem wp_badRwIntr (h : s.queue = r :: q) (he : r.errors + 1 < maxErrors) : wp badRwIntr Q E s ↔
    Q () { s with
      queue := { r with errors := r.errors + 1 } :: q
      reset := if maxErrors / 2 < r.errors + 1 then true else s.reset } := by
  unfold badRwIntr
  rw [wp_bind, wp_setCurrent h, wp_bind, wp_current rfl, wp_bind, wp_whenever,
    if_neg (Nat.not_le.mpr he), wp_bind, wp_current rfl, wp_resetIf]

/-- The last error a request may have: it is ended, and the next one is looked at. -/
theorem wp_badRwIntr_limit (h : s.queue = r :: q) (he : maxErrors ≤ r.errors + 1) :
    wp badRwIntr Q E s ↔
      wp current (fun r' t => Q () { t with reset := if maxErrors / 2 < r'.errors then true else t.reset }) E
        { s with queue := q, done := s.done ++ [(r.id, false)] } := by
  unfold badRwIntr
  rw [wp_bind, wp_setCurrent h, wp_bind, wp_current rfl, wp_bind, wp_whenever, if_pos he,
    wp_endRequest rfl, wp_bind]
  simp only [wp_resetIf]

theorem wp_readIntr_ok (h : s.queue = r :: q) : wp (readIntr D false) Q E s ↔
    if r.readOn.nrSectors ≠ 0 then
      Q () { s.portRead r.buffer with queue := r.readOn :: q, doHd := some .readIntr }
    else
      wp (do endRequest true; doHdRequest D) Q E { s.portRead r.buffer with queue := r.readOn :: q } := by
  have hport : (s.portRead r.buffer).queue = r :: q := by simp [h]
  unfold readIntr
  rw [if_neg (by simp), wp_bind, wp_current h, wp_bind, wp_modify, wp_bind, wp_setCurrent hport,
    wp_bind, wp_current rfl]
  split <;> exact Iff.rfl

theorem wp_writeIntr_ok (h : s.queue = r :: q) : wp (writeIntr D false) Q E s ↔
    if r.writtenOn.nrSectors ≠ 0 then
      Q () { s.portWrite (r.buffer + 1) with queue := r.advance :: q, doHd := some .writeIntr }
    else
      wp (do endRequest true; doHdRequest D) Q E { s with queue := r.writtenOn :: q } := by
  unfold writeIntr
  rw [if_neg (by simp), wp_bind, wp_setCurrent h, wp_bind, wp_current rfl]
  split
  · have hadvance : { r.writtenOn with sector := up r.writtenOn.sector, buffer := r.writtenOn.buffer + 1 } =
        r.advance := rfl
    rw [wp_bind, wp_setCurrent rfl, wp_bind, wp_current rfl, wp_modify, hadvance]
    exact Iff.rfl
  · exact Iff.rfl

theorem wp_drq_ok (h : s.queue = r :: q) :
    wp (drq D .ok) Q E s ↔ Q () ({ s with polling := false }.portWrite r.buffer) := by
  have hqueue : ({ s with polling := false } : State β).queue = r :: q := h
  unfold drq
  rw [wp_bind, wp_modify, if_neg (by simp [Outcome.isError]), wp_bind, wp_current hqueue]
  exact Iff.rfl

theorem wp_answer_poll (h : s.polling = true) (o : Outcome β) :
    wp (answer D o) Q E s ↔ wp (drq D o) Q E s := by
  unfold answer
  rw [wp_bind, wp_get, if_pos h]

theorem wp_answer_intr (h : s.polling = false) {intr : Handler} (hintr : s.doHd = some intr)
    (o : Outcome β) : wp (answer D o) Q E s ↔
      wp (interrupt D o.isError intr) Q E { s.controller o with doHd := none } := by
  unfold answer
  rw [wp_bind, wp_get, if_neg (by simp [h]), wp_bind, wp_modify, hintr]

end Linux011.BlkDrv.Hd
