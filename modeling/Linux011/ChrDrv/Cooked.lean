import Linux011.ChrDrv.TtyWrite
import Mathlib.Data.List.DropRight

/-!
# Terminals — `copy_to_cooked`

The line editor between the read queue and the secondary queue of a terminal.
It works in place on the ring; `edit` is the editor it is to be, on the list of
what is queued.

* `cookChar_contents` — what one character makes of the secondary queue;
* `cook_ends` — `copy_to_cooked` ends with the read queue empty or the
  secondary queue full;
* `session_edits` — the secondary queue is what the reference editor makes of
  the input, exactly if no ERASE or KILL comes to a byte from 0x80 on that is
  the EOF character.

A character is a signed `char` in the code and the control characters are
unsigned, so the two are never equal from 0x80 on (`sameChar`). `write` is what
`tty->write` makes of the write queue: nothing on a serial line, and the console
empties it. That a report of the console calls `copy_to_cooked` in the middle of
an echo is not part of this.
-/

namespace Linux011.ChrDrv

/-- `isupper`. -/
def Ctype.isupper (k : Ctype) (c : Byte) : Bool :=
  if c.toNat < 128 then 65 ≤ c.toNat && c.toNat ≤ 90 else k.upper c

/-- `tolower`. -/
def Ctype.tolower (k : Ctype) (c : Byte) : Byte :=
  if k.isupper c then c + 32#8 else c

/-! ## Terminals -/

/-- The modes and control characters of a terminal that the editor looks at. -/
structure Termios where
  icrnl   : Bool
  igncr   : Bool
  inlcr   : Bool
  iuclc   : Bool
  icanon  : Bool
  isig    : Bool
  echo    : Bool
  echoctl : Bool
  intr    : Byte
  quit    : Byte
  erase   : Byte
  kill    : Byte
  eof     : Byte
  start   : Byte
  stop    : Byte
  deriving DecidableEq, Repr

def intmask : Nat := 1 <<< 1
def quitmask : Nat := 1 <<< 2

/-- `tty_struct`; `signals` is what `tty_intr` has been asked to send. -/
structure Tty where
  termios   : Termios
  stopped   : Bool
  signals   : List Nat
  readQ     : TtyQueue
  writeQ    : TtyQueue
  secondary : TtyQueue

/-- A `char` against a control character, both as `int`. -/
def sameChar (c cc : Byte) : Bool := c.toInt = (cc.toNat : Int)

/-- `ICRNL`, `IGNCR`, `INLCR` and `IUCLC`; a CR may be dropped. -/
def Termios.input (t : Termios) (k : Ctype) (c : Byte) : Option Byte :=
  let mapped :=
    if c = 13#8 then
      if t.icrnl then some 10#8 else if t.igncr then none else some c
    else if c = 10#8 && t.inlcr then some 13#8
    else some c
  mapped.map fun c => if t.iuclc then k.tolower c else c

/-- What a character is taken for. -/
inductive Action
  | kill
  | erase
  | stop
  | start
  | intr
  | quit
  | append
  deriving DecidableEq, Repr

/-- The tests of `copy_to_cooked`, in their order. -/
def Termios.action (t : Termios) (c : Byte) : Action :=
  if t.icanon && sameChar c t.kill then .kill
  else if t.icanon && sameChar c t.erase then .erase
  else if t.icanon && sameChar c t.stop then .stop
  else if t.icanon && sameChar c t.start then .start
  else if t.isig && sameChar c t.intr then .intr
  else if t.isig && sameChar c t.quit then .quit
  else .append

/-- `c==10 || c==EOF_CHAR(tty)`. -/
def Termios.ends (t : Termios) (c : Byte) : Bool := c = 10#8 || sameChar c t.eof

/-- The echo of a character that is removed. -/
def Termios.eraseEcho (t : Termios) (c : Byte) : List Byte :=
  if t.echo then (if c.toInt < 32 then [127#8] else []) ++ [127#8] else []

/-- The echo of a character. -/
def Termios.charEcho (t : Termios) (c : Byte) : List Byte :=
  if t.echo then
    if c = 10#8 then [10#8, 13#8]
    else if c.toInt < 32 then if t.echoctl then [94#8, c + 64#8] else []
    else [c]
  else []

/-! ## The editor -/

/-- `PUTCH` of some bytes. -/
def TtyQueue.puts (q : TtyQueue) (bytes : List Byte) : TtyQueue := bytes.foldl TtyQueue.putch q

variable (write : TtyQueue → TtyQueue) (k : Ctype)

/-- An echo, and `tty->write`. -/
def Tty.echo (tty : Tty) (bytes : List Byte) : Tty :=
  if tty.termios.echo then { tty with writeQ := write (tty.writeQ.puts bytes) } else tty

/-- The last character of the secondary queue is removed. -/
def Tty.rubout (tty : Tty) : Tty :=
  let tty := tty.echo write (tty.termios.eraseEcho tty.secondary.last)
  { tty with secondary := tty.secondary.unput }

/-- Nothing to remove: the queue is empty or a line ends there. -/
def Tty.atStart (tty : Tty) : Bool :=
  tty.secondary.empty || tty.termios.ends tty.secondary.last

/-- The loop of KILL, `n` characters queued. -/
def Tty.killLine (tty : Tty) : Nat → Tty
  | 0 => tty
  | n + 1 => if tty.atStart then tty else (tty.rubout write).killLine n

/-- An ordinary character. -/
def Tty.append (tty : Tty) (c : Byte) : Tty :=
  let data := if tty.termios.ends c then (tty.secondary.data + 1) % 0x100000000 else tty.secondary.data
  let tty := { tty with secondary := { tty.secondary with data := data } }
  let tty := tty.echo write (tty.termios.charEcho c)
  { tty with secondary := tty.secondary.putch c }

/-- The body of the loop of `copy_to_cooked` after `GETCH`. -/
def Tty.cookChar (tty : Tty) (c : Byte) : Tty :=
  match tty.termios.input k c with
  | none => tty
  | some c =>
    match tty.termios.action c with
    | .kill => tty.killLine write tty.secondary.chars
    | .erase => if tty.atStart then tty else tty.rubout write
    | .stop => { tty with stopped := true }
    | .start => { tty with stopped := false }
    | .intr => { tty with signals := intmask :: tty.signals }
    | .quit => { tty with signals := quitmask :: tty.signals }
    | .append => tty.append write c

/-- A round of the loop. -/
def Tty.cookOne (tty : Tty) : Tty :=
  { tty with readQ := tty.readQ.getch }.cookChar write k tty.readQ.first

/-- The loop, `n` characters in the read queue. -/
def Tty.cook (tty : Tty) : Nat → Tty
  | 0 => tty
  | n + 1 => if tty.readQ.empty || tty.secondary.full then tty else (tty.cookOne write k).cook n

/-- `copy_to_cooked`. -/
def Tty.copyToCooked (tty : Tty) : Tty := tty.cook write k tty.readQ.chars

/-! ## The reference editor -/

/-- Newline or the EOF character. -/
def Termios.isEnd (t : Termios) (c : Byte) : Bool := c = 10#8 || c = t.eof

/-- ERASE on what is queued: the last character goes, unless a line ends there. -/
def eraseLast (ends : Byte → Bool) (line : List Byte) : List Byte :=
  if line.getLast?.any ends then line else line.dropLast

/-- KILL on what is queued: the characters after the last end of a line go. -/
def killTail (ends : Byte → Bool) (line : List Byte) : List Byte := line.rdropWhile fun c => !ends c

/-- The line editor. -/
def Termios.edit (t : Termios) (line : List Byte) (c : Byte) : List Byte :=
  match t.input k c with
  | none => line
  | some c =>
    if t.icanon && c = t.kill then killTail t.isEnd line
    else if t.icanon && c = t.erase then eraseLast t.isEnd line
    else if t.icanon && (c = t.stop || c = t.start) then line
    else if t.isig && (c = t.intr || c = t.quit) then line
    else line ++ [c]

/-- What the code does to the list, with its own tests. -/
def Termios.codeEdit (t : Termios) (ends : Byte → Bool) (line : List Byte) (c : Byte) : List Byte :=
  match t.input k c with
  | none => line
  | some c =>
    match t.action c with
    | .kill => killTail ends line
    | .erase => eraseLast ends line
    | .append => line ++ [c]
    | _ => line

/-- An end of a line that the code does not see. -/
def Termios.unseen (t : Termios) (c : Byte) : Bool := t.isEnd c && 128 ≤ c.toNat

/-- The editor stops an ERASE or a KILL at an end that the code does not see. -/
def Termios.hits (t : Termios) (line : List Byte) (c : Byte) : Bool :=
  match t.input k c with
  | none => false
  | some c =>
    if t.icanon && c = t.kill then (killTail t.isEnd line).getLast?.any t.unseen
    else if t.icanon && c = t.erase then line.getLast?.any t.unseen
    else false

/-- No ERASE or KILL of the input comes to such an end. -/
def Termios.Clear (t : Termios) : List Byte → List Byte → Prop
  | _, [] => True
  | line, c :: cs => t.hits k line c = false ∧ t.Clear (t.edit k line c) cs

variable {write k} {t : Termios} {tty : Tty}

/-! ## The queues -/

@[simp] theorem echo_termios (bytes : List Byte) : (tty.echo write bytes).termios = tty.termios := by
  unfold Tty.echo
  split <;> rfl

@[simp] theorem echo_readQ (bytes : List Byte) : (tty.echo write bytes).readQ = tty.readQ := by
  unfold Tty.echo
  split <;> rfl

@[simp] theorem echo_secondary (bytes : List Byte) : (tty.echo write bytes).secondary = tty.secondary := by
  unfold Tty.echo
  split <;> rfl

@[simp] theorem rubout_termios : (tty.rubout write).termios = tty.termios := echo_termios _

@[simp] theorem rubout_readQ : (tty.rubout write).readQ = tty.readQ := echo_readQ _

@[simp] theorem rubout_secondary : (tty.rubout write).secondary = tty.secondary.unput :=
  congrArg TtyQueue.unput (echo_secondary _)

theorem killLine_frame (n : Nat) (tty : Tty) : (tty.killLine write n).termios = tty.termios ∧
    (tty.killLine write n).readQ = tty.readQ := by
  induction n generalizing tty with
  | zero => exact ⟨rfl, rfl⟩
  | succ n ih =>
    rw [Tty.killLine]
    split
    · exact ⟨rfl, rfl⟩
    · have h := ih (tty.rubout write)
      rw [rubout_termios, rubout_readQ] at h
      exact h

/-- A character is taken out of the read queue and changes no mode. -/
theorem cookChar_frame (write : TtyQueue → TtyQueue) (k : Ctype) (tty : Tty) (c : Byte) : (tty.cookChar write k c).termios = tty.termios ∧
    (tty.cookChar write k c).readQ = tty.readQ := by
  unfold Tty.cookChar
  split
  · exact ⟨rfl, rfl⟩
  · split
    · exact killLine_frame _ tty
    · split
      · exact ⟨rfl, rfl⟩
      · exact ⟨rubout_termios, rubout_readQ⟩
    · exact ⟨rfl, rfl⟩
    · exact ⟨rfl, rfl⟩
    · exact ⟨rfl, rfl⟩
    · exact ⟨rfl, rfl⟩
    · unfold Tty.append
      exact ⟨echo_termios _, echo_readQ _⟩

/-! ## One character -/

theorem getLast_contents (h : tty.secondary.empty = false) :
    tty.secondary.contents.getLast? = some tty.secondary.last := by
  rw [TtyQueue.contents_unput h, List.getLast?_concat]

theorem contents_nil (tty : Tty) (h : tty.secondary.empty = true) : tty.secondary.contents = [] :=
  TtyQueue.contents_eq_nil_iff.mpr h

/-- The loop of KILL. -/
theorem killLine_contents (n : Nat) (tty : Tty) (h : tty.secondary.chars ≤ n) :
    (tty.killLine write n).secondary.contents = killTail tty.termios.ends tty.secondary.contents := by
  induction n generalizing tty with
  | zero =>
    have hnil := contents_nil tty (TtyQueue.empty_iff.mpr (by omega))
    rw [Tty.killLine, hnil]
    rfl
  | succ n ih =>
    rw [Tty.killLine]
    unfold Tty.atStart
    cases he : tty.secondary.empty with
    | true =>
      rw [if_pos (by simp), contents_nil _ he]
      rfl
    | false =>
      have hcons := TtyQueue.contents_unput he
      have hchars := TtyQueue.chars_unput he
      unfold killTail at ih ⊢
      cases hend : tty.termios.ends tty.secondary.last with
      | true =>
        rw [if_pos (by simp), hcons, List.rdropWhile_concat_neg _ _ _ (by simp [hend])]
      | false =>
        rw [if_neg (by simp), hcons, List.rdropWhile_concat_pos _ _ _ (by simp [hend])]
        rw [ih _ (by rw [rubout_secondary]; omega), rubout_termios, rubout_secondary]

/-- **One character**: what is queued afterwards. -/
theorem cookChar_contents (write : TtyQueue → TtyQueue) (k : Ctype) (tty : Tty)
    (h : tty.secondary.full = false) (c : Byte) :
    (tty.cookChar write k c).secondary.contents =
      tty.termios.codeEdit k tty.termios.ends tty.secondary.contents c := by
  unfold Tty.cookChar Termios.codeEdit
  cases tty.termios.input k c with
  | none => rfl
  | some c =>
    dsimp only
    cases tty.termios.action c with
    | kill => exact killLine_contents _ tty (Nat.le_refl _)
    | erase =>
      dsimp only
      unfold Tty.atStart eraseLast
      cases he : tty.secondary.empty with
      | true =>
        rw [if_pos (by simp), contents_nil _ he]
        rfl
      | false =>
        rw [getLast_contents he, Bool.false_or, Option.any_some]
        split
        · rfl
        · rw [rubout_secondary, TtyQueue.contents_unput he, List.dropLast_concat]
    | append =>
      unfold Tty.append
      dsimp only
      rw [echo_secondary]
      exact TtyQueue.contents_putch c h
    | _ => rfl

/-! ## The loop -/

theorem cookOne_frame (tty : Tty) : (tty.cookOne write k).termios = tty.termios ∧
    (tty.cookOne write k).readQ = tty.readQ.getch :=
  cookChar_frame write k { tty with readQ := tty.readQ.getch } _

/-- **`copy_to_cooked` ends** with the read queue empty or the secondary queue
full. -/
theorem cook_ends (n : Nat) (tty : Tty) (h : tty.readQ.chars ≤ n) :
    (tty.cook write k n).readQ.empty = true ∨ (tty.cook write k n).secondary.full = true := by
  induction n generalizing tty with
  | zero => exact Or.inl (TtyQueue.empty_iff.mpr (by rw [Tty.cook]; omega))
  | succ n ih =>
    rw [Tty.cook]
    cases he : tty.readQ.empty with
    | true =>
      rw [if_pos (by simp)]
      exact Or.inl he
    | false =>
      rw [Bool.false_or]
      split
      · next hf => exact Or.inr hf
      · refine ih _ ?_
        have hchars := TtyQueue.chars_getch he
        rw [(cookOne_frame tty).2]
        omega

theorem cook_termios (n : Nat) (tty : Tty) : (tty.cook write k n).termios = tty.termios := by
  induction n generalizing tty with
  | zero => rfl
  | succ n ih =>
    rw [Tty.cook]
    split
    · rfl
    · rw [ih, (cookOne_frame tty).1]

/-- A loop that empties the read queue has edited all of it. -/
theorem cook_contents (n : Nat) (tty : Tty) (h : tty.readQ.chars ≤ n)
    (hall : (tty.cook write k n).readQ.empty = true) :
    (tty.cook write k n).secondary.contents =
      tty.readQ.contents.foldl (tty.termios.codeEdit k tty.termios.ends) tty.secondary.contents := by
  induction n generalizing tty with
  | zero =>
    have hnil := TtyQueue.contents_eq_nil_iff.mpr (TtyQueue.empty_iff.mpr (show tty.readQ.chars = 0 by omega))
    rw [Tty.cook, hnil]
    rfl
  | succ n ih =>
    rw [Tty.cook] at hall ⊢
    cases he : tty.readQ.empty with
    | true =>
      rw [if_pos (by simp), TtyQueue.contents_eq_nil_iff.mpr he]
      rfl
    | false =>
      rw [he, Bool.false_or] at hall
      rw [Bool.false_or]
      split at hall
      · rw [he] at hall
        cases hall
      · next hf =>
        rw [Bool.not_eq_true] at hf
        have hchars := TtyQueue.chars_getch he
        have hframe : (tty.cookOne write k).termios = tty.termios ∧ (tty.cookOne write k).readQ = tty.readQ.getch :=
          cookOne_frame tty
        obtain ⟨hterm, hread⟩ := hframe
        rw [if_neg (by simp [hf]), ih _ (by rw [hread]; omega) hall, hterm, hread, TtyQueue.contents_getch he,
          List.foldl_cons]
        congr 1
        exact cookChar_contents write k { tty with readQ := tty.readQ.getch } hf _

theorem contents_puts (bytes : List Byte) (q : TtyQueue) (h : bytes.length ≤ q.left) :
    (q.puts bytes).contents = q.contents ++ bytes := by
  induction bytes generalizing q with
  | nil => exact (List.append_nil _).symm
  | cons b bytes ih =>
    rw [List.length_cons, TtyQueue.left_eq] at h
    have hfull : q.full = false := by
      rw [← Bool.not_eq_true, TtyQueue.full_iff]
      omega
    have hrest : bytes.length ≤ (q.putch b).left := by
      rw [TtyQueue.left_eq, TtyQueue.chars_putch b hfull]
      omega
    have hnext := ih (q.putch b) hrest
    rw [TtyQueue.contents_putch b hfull, List.append_assoc] at hnext
    exact hnext

/-! ## A session -/

variable (write k)

/-- Bytes come in, and `copy_to_cooked` is called. -/
def Tty.receive (tty : Tty) (bytes : List Byte) : Tty :=
  { tty with readQ := tty.readQ.puts bytes }.copyToCooked write k

def Tty.session (tty : Tty) (chunks : List (List Byte)) : Tty := chunks.foldl (Tty.receive write k) tty

/-- All the bytes find room in the read queue, and the secondary queue is never
full before they have been edited. -/
def Tty.Takes (tty : Tty) : List (List Byte) → Prop
  | [] => True
  | bytes :: chunks => bytes.length ≤ tty.readQ.left ∧ (tty.receive write k bytes).readQ.empty = true ∧
      (tty.receive write k bytes).Takes chunks

variable {write k}

theorem session_contents (chunks : List (List Byte)) (tty : Tty) (h0 : tty.readQ.empty = true)
    (h : tty.Takes write k chunks) : (tty.session write k chunks).secondary.contents =
      chunks.flatten.foldl (tty.termios.codeEdit k tty.termios.ends) tty.secondary.contents := by
  induction chunks generalizing tty with
  | nil => rfl
  | cons bytes chunks ih =>
    obtain ⟨hroom, hempty, hrest⟩ := h
    have hread : (tty.readQ.puts bytes).contents = bytes := by
      rw [contents_puts bytes _ hroom, TtyQueue.contents_eq_nil_iff.mpr h0, List.nil_append]
    have hterm : (tty.receive write k bytes).termios = tty.termios := cook_termios _ _
    have hone : (tty.receive write k bytes).secondary.contents = (tty.readQ.puts bytes).contents.foldl
        (tty.termios.codeEdit k tty.termios.ends) tty.secondary.contents :=
      cook_contents _ { tty with readQ := tty.readQ.puts bytes } (Nat.le_refl _) hempty
    have hnext := ih (tty.receive write k bytes) hempty hrest
    rw [hterm, hone, hread] at hnext
    rw [List.flatten_cons, List.foldl_append]
    exact hnext

/-! ## The code's tests and the editor's -/

/-- Below 0x80 a character is compared as it should be. -/
theorem sameChar_low {c cc : Byte} (h : c.toNat < 128) : sameChar c cc = decide (c = cc) := by
  unfold sameChar
  rw [decide_eq_decide, BitVec.toInt_eq_toNat_of_lt (by omega), Int.natCast_inj, BitVec.toNat_inj]

/-- From 0x80 on it is equal to no control character. -/
theorem sameChar_high {c cc : Byte} (h : 128 ≤ c.toNat) : sameChar c cc = false := by
  have := c.isLt
  unfold sameChar
  rw [decide_eq_false_iff_not, BitVec.toInt_eq_toNat_cond, if_neg (by omega)]
  omega

theorem ends_low {c : Byte} (h : c.toNat < 128) : t.ends c = t.isEnd c := by
  unfold Termios.ends Termios.isEnd
  rw [sameChar_low h]

theorem ends_high {c : Byte} (h : 128 ≤ c.toNat) : t.ends c = false := by
  unfold Termios.ends
  rw [sameChar_high h, Bool.or_false, decide_eq_false_iff_not]
  rintro rfl
  exact absurd h (by decide)

/-- What the code sees is an end; what it does not see is unseen. -/
theorem ends_eq (c : Byte) : t.ends c = (t.isEnd c && !t.unseen c) := by
  unfold Termios.unseen
  by_cases h : c.toNat < 128
  · simp [ends_low h, h]
  · rw [ends_high (by omega)]
    simp [Nat.le_of_not_lt h]

/-- ASCII stays ASCII. -/
theorem input_low {c d : Byte} (h : c.toNat < 128) (hd : t.input k c = some d) : d.toNat < 128 := by
  have hlower : ∀ c : Byte, c.toNat < 128 → (k.tolower c).toNat < 128 := by
    intro c hc
    unfold Ctype.tolower Ctype.isupper
    rw [if_pos hc]
    split
    · next hu =>
      simp only [Bool.and_eq_true, decide_eq_true_eq] at hu
      rw [BitVec.toNat_add]
      simp only [BitVec.toNat_ofNat]
      omega
    · exact hc
  unfold Termios.input at hd
  obtain ⟨e, he, rfl⟩ := Option.map_eq_some_iff.mp hd
  have hmapped : e.toNat < 128 := by
    split_ifs at he <;> cases he <;> first | exact h | decide
  split
  · exact hlower e hmapped
  · exact hmapped

/-- With the editor's own tests the code edits as the editor does. -/
theorem codeEdit_isEnd {c : Byte} (h : c.toNat < 128) (line : List Byte) :
    t.codeEdit k t.isEnd line c = t.edit k line c := by
  unfold Termios.codeEdit Termios.edit
  cases hd : t.input k c with
  | none => rfl
  | some d =>
    have hlow := input_low h hd
    unfold Termios.action
    simp only [sameChar_low hlow, Bool.and_or_distrib_left]
    -- the same tests in the same order
    by_cases hkill : (t.icanon && decide (d = t.kill)) = true
    · rw [if_pos hkill, if_pos hkill]
    rw [if_neg hkill, if_neg hkill]
    by_cases herase : (t.icanon && decide (d = t.erase)) = true
    · rw [if_pos herase, if_pos herase]
    rw [if_neg herase, if_neg herase]
    by_cases hstop : (t.icanon && decide (d = t.stop)) = true
    · rw [if_pos hstop, hstop, Bool.true_or, if_pos rfl]
    rw [if_neg hstop, Bool.eq_false_iff.mpr hstop, Bool.false_or]
    by_cases hstart : (t.icanon && decide (d = t.start)) = true
    · rw [if_pos hstart, if_pos hstart]
    rw [if_neg hstart, if_neg hstart]
    by_cases hintr : (t.isig && decide (d = t.intr)) = true
    · rw [if_pos hintr, hintr, Bool.true_or, if_pos rfl]
    rw [if_neg hintr, Bool.eq_false_iff.mpr hintr, Bool.false_or]
    by_cases hquit : (t.isig && decide (d = t.quit)) = true
    · rw [if_pos hquit, if_pos hquit]
    rw [if_neg hquit, if_neg hquit]

/-! ## Ends that the code does not see -/

theorem killTail_concat (ends : Byte → Bool) (line : List Byte) (b : Byte) :
    killTail ends (line ++ [b]) = if ends b then line ++ [b] else killTail ends line := by
  unfold killTail
  cases h : ends b with
  | true => rw [List.rdropWhile_concat_neg _ _ _ (by simp [h]), if_pos rfl]
  | false => rw [List.rdropWhile_concat_pos _ _ _ (by simp [h]), if_neg (by simp)]

theorem eraseLast_concat (ends : Byte → Bool) (line : List Byte) (b : Byte) :
    eraseLast ends (line ++ [b]) = if ends b then line ++ [b] else line := by
  unfold eraseLast
  rw [List.getLast?_concat, Option.any_some, List.dropLast_concat]

/-- The two KILLs agree if the editor's does not stop at an unseen end. -/
theorem killTail_agree (line : List Byte) (h : (killTail t.isEnd line).getLast?.any t.unseen = false) :
    killTail t.ends line = killTail t.isEnd line := by
  induction line using List.reverseRecOn with
  | nil => rfl
  | append_singleton line b ih =>
    rw [killTail_concat] at h ⊢
    rw [killTail_concat, ends_eq]
    cases hb : t.isEnd b with
    | true =>
      rw [hb, if_pos rfl, List.getLast?_concat, Option.any_some] at h
      rw [h]
      rfl
    | false =>
      rw [hb, if_neg (by decide)] at h
      rw [Bool.false_and, if_neg (by decide), if_neg (by decide), ih h]

theorem eraseLast_agree (line : List Byte) (h : line.getLast?.any t.unseen = false) :
    eraseLast t.ends line = eraseLast t.isEnd line := by
  unfold eraseLast
  cases hl : line.getLast? with
  | none => rfl
  | some b =>
    rw [hl, Option.any_some] at h
    rw [Option.any_some, Option.any_some, ends_eq, h, Bool.not_false, Bool.and_true]

/-- **The code edits as the editor does** where no ERASE or KILL stops at an
unseen end. -/
theorem codeEdit_clear {c : Byte} (h : c.toNat < 128) {line : List Byte} (hc : t.hits k line c = false) :
    t.codeEdit k t.ends line c = t.edit k line c := by
  rw [← codeEdit_isEnd h]
  unfold Termios.hits at hc
  unfold Termios.codeEdit
  cases hd : t.input k c with
  | none => rfl
  | some d =>
    have hlow := input_low h hd
    rw [hd] at hc
    dsimp only at hc ⊢
    unfold Termios.action
    simp only [sameChar_low hlow]
    split_ifs at hc ⊢ with h1 h2 <;> first | rfl | skip
    · exact killTail_agree line hc
    · exact eraseLast_agree line hc

/-- How many unseen ends there are. -/
def Termios.unseens (t : Termios) (line : List Byte) : Nat := line.countP t.unseen

theorem unseens_concat (line : List Byte) (b : Byte) :
    t.unseens (line ++ [b]) = t.unseens line + if t.unseen b then 1 else 0 := by
  unfold Termios.unseens
  rw [List.countP_append, List.countP_singleton]

/-- The editor's KILL keeps them. -/
theorem unseens_killTail (line : List Byte) : t.unseens (killTail t.isEnd line) = t.unseens line := by
  induction line using List.reverseRecOn with
  | nil => rfl
  | append_singleton line b ih =>
    rw [killTail_concat]
    split
    · rfl
    · next hb =>
      have hun : t.unseen b = false := by
        unfold Termios.unseen
        simp [hb]
      rw [ih, unseens_concat, hun]
      rfl

theorem unseens_eraseLast (line : List Byte) : t.unseens (eraseLast t.isEnd line) = t.unseens line := by
  rcases List.eq_nil_or_concat' line with rfl | ⟨line, b, rfl⟩
  · rfl
  · rw [eraseLast_concat]
    split
    · rfl
    · next hb =>
      have hun : t.unseen b = false := by
        unfold Termios.unseen
        simp [hb]
      rw [unseens_concat, hun]
      rfl

/-- No edit adds one. -/
theorem unseens_kill_le (ends : Byte → Bool) (line : List Byte) :
    t.unseens (killTail ends line) ≤ t.unseens line :=
  ((List.rdropWhile_prefix _ _).sublist).countP_le

theorem unseens_erase_le (ends : Byte → Bool) (line : List Byte) :
    t.unseens (eraseLast ends line) ≤ t.unseens line := by
  unfold eraseLast
  split
  · exact Nat.le_refl _
  · exact ((List.dropLast_prefix _).sublist).countP_le

theorem unseen_low {c : Byte} (h : c.toNat < 128) : t.unseen c = false := by
  unfold Termios.unseen
  simp only [Bool.and_eq_false_iff, decide_eq_false_iff_not]
  exact Or.inr (by omega)

theorem unseens_edit {c : Byte} (h : c.toNat < 128) (line : List Byte) :
    t.unseens (t.edit k line c) = t.unseens line := by
  unfold Termios.edit
  cases hd : t.input k c with
  | none => rfl
  | some d =>
    dsimp only
    split_ifs
    · exact unseens_killTail line
    · exact unseens_eraseLast line
    · rfl
    · rfl
    · rw [unseens_concat, unseen_low (input_low h hd)]
      rfl

theorem unseens_codeEdit_le {c : Byte} (h : c.toNat < 128) (line : List Byte) :
    t.unseens (t.codeEdit k t.ends line c) ≤ t.unseens line := by
  unfold Termios.codeEdit
  cases hd : t.input k c with
  | none => exact Nat.le_refl _
  | some d =>
    dsimp only
    cases t.action d with
    | kill => exact unseens_kill_le _ line
    | erase => exact unseens_erase_le _ line
    | append =>
      dsimp only
      rw [unseens_concat, unseen_low (input_low h hd)]
      exact Nat.le_refl _
    | _ => exact Nat.le_refl _

/-- A KILL of the code goes beyond an end that it does not see. -/
theorem unseens_kill_lt (line : List Byte) (h : (killTail t.isEnd line).getLast?.any t.unseen = true) :
    t.unseens (killTail t.ends line) < t.unseens line := by
  induction line using List.reverseRecOn with
  | nil => cases h
  | append_singleton line b ih =>
    rw [killTail_concat] at h ⊢
    rw [ends_eq, unseens_concat]
    cases hb : t.isEnd b with
    | true =>
      rw [hb, if_pos rfl, List.getLast?_concat, Option.any_some] at h
      rw [h]
      have := unseens_kill_le (t := t) t.ends line
      simp only [Bool.not_true, Bool.and_false, Bool.false_eq_true, if_false, if_true]
      omega
    | false =>
      rw [hb, if_neg (by decide)] at h
      have := ih h
      rw [Bool.false_and, if_neg (by decide)]
      omega

theorem unseens_erase_lt (line : List Byte) (h : line.getLast?.any t.unseen = true) :
    t.unseens (eraseLast t.ends line) < t.unseens line := by
  rcases List.eq_nil_or_concat' line with rfl | ⟨line, b, rfl⟩
  · cases h
  · rw [List.getLast?_concat, Option.any_some] at h
    rw [eraseLast_concat, ends_eq, unseens_concat, h]
    simp

/-- Where the editor stops at an unseen end, the code takes one away. -/
theorem unseens_codeEdit_lt {c : Byte} (h : c.toNat < 128) {line : List Byte} (hc : t.hits k line c = true) :
    t.unseens (t.codeEdit k t.ends line c) < t.unseens line := by
  unfold Termios.hits at hc
  unfold Termios.codeEdit
  cases hd : t.input k c with
  | none =>
    rw [hd] at hc
    cases hc
  | some d =>
    have hlow := input_low h hd
    rw [hd] at hc
    dsimp only at hc ⊢
    unfold Termios.action
    simp only [sameChar_low hlow]
    split_ifs at hc ⊢ with h1 h2
    · exact unseens_kill_lt line hc
    · exact unseens_erase_lt line hc

theorem unseens_foldl_edit {cs : List Byte} (h : ∀ c ∈ cs, c.toNat < 128) (line : List Byte) :
    t.unseens (cs.foldl (t.edit k) line) = t.unseens line := by
  induction cs generalizing line with
  | nil => rfl
  | cons c cs ih =>
    rw [List.foldl_cons, ih (fun d hd => h d (List.mem_cons_of_mem _ hd)), unseens_edit (h c List.mem_cons_self)]

theorem unseens_foldl_code {cs : List Byte} (h : ∀ c ∈ cs, c.toNat < 128) (line : List Byte) :
    t.unseens (cs.foldl (t.codeEdit k t.ends) line) ≤ t.unseens line := by
  induction cs generalizing line with
  | nil => exact Nat.le_refl _
  | cons c cs ih =>
    exact (ih (fun d hd => h d (List.mem_cons_of_mem _ hd)) _).trans
      (unseens_codeEdit_le (h c List.mem_cons_self) line)

/-- What the code makes of an input is what the editor makes of it exactly if
no ERASE or KILL stops at an unseen end: such an end is lost for good. -/
theorem foldl_codeEdit_iff {cs : List Byte} (h : ∀ c ∈ cs, c.toNat < 128) (line : List Byte) :
    cs.foldl (t.codeEdit k t.ends) line = cs.foldl (t.edit k) line ↔ t.Clear k line cs := by
  induction cs generalizing line with
  | nil => exact ⟨fun _ => trivial, fun _ => rfl⟩
  | cons c cs ih =>
    have hc := h c List.mem_cons_self
    have hcs : ∀ d ∈ cs, d.toNat < 128 := fun d hd => h d (List.mem_cons_of_mem _ hd)
    rw [List.foldl_cons, List.foldl_cons, Termios.Clear]
    cases hhit : t.hits k line c with
    | false => rw [codeEdit_clear hc hhit, ih hcs, eq_self, true_and]
    | true =>
      refine ⟨fun heq => ?_, fun hno => by cases hno.1⟩
      have hcode := unseens_foldl_code (t := t) (k := k) hcs (t.codeEdit k t.ends line c)
      have hlt := unseens_codeEdit_lt hc hhit
      rw [heq, unseens_foldl_edit hcs, unseens_edit hc] at hcode
      omega

/-- **Line editing refines the editor** exactly if no ERASE or KILL of the input
stops at an end of a line that is a byte from 0x80 on: what a reader is given is
what a user who looks at the line expects. -/
theorem session_edits {chunks : List (List Byte)} (h0 : tty.readQ.empty = true)
    (hlow : ∀ c ∈ chunks.flatten, c.toNat < 128) (htakes : tty.Takes write k chunks) :
    (tty.session write k chunks).secondary.contents =
        chunks.flatten.foldl (tty.termios.edit k) tty.secondary.contents ↔
      tty.termios.Clear k tty.secondary.contents chunks.flatten := by
  rw [session_contents chunks tty h0 htakes]
  exact foldl_codeEdit_iff hlow _

/-- The modes and characters the console starts with. -/
def consoleTermios : Termios where
  icrnl := true
  igncr := false
  inlcr := false
  iuclc := false
  icanon := true
  isig := true
  echo := true
  echoctl := true
  intr := 3#8
  quit := 28#8
  erase := 127#8
  kill := 21#8
  eof := 4#8
  start := 17#8
  stop := 19#8

/-- A terminal that has nothing but `line` queued. -/
def idleTty (termios : Termios) (line : List Byte) : Tty :=
  ⟨termios, false, [], .init 0, .init 0, (TtyQueue.init 0).puts line⟩

/-- "ab", a DEL, and "c" with a CR. -/
theorem session_edits_console :
    ((idleTty consoleTermios []).session id TtyWrite.ascii [[97#8, 98#8, 127#8], [99#8, 13#8]]).secondary.contents =
        [[97#8, 98#8, 127#8], [99#8, 13#8]].flatten.foldl (consoleTermios.edit TtyWrite.ascii)
          (idleTty consoleTermios []).secondary.contents ↔
      consoleTermios.Clear TtyWrite.ascii (idleTty consoleTermios []).secondary.contents
        [[97#8, 98#8, 127#8], [99#8, 13#8]].flatten :=
  session_edits rfl (by decide) ⟨by decide +kernel, by decide +kernel, by decide +kernel, by decide +kernel, trivial⟩

/-- The EOF character is 200 and "a", 200 and "b" are queued: KILL takes all
three and should leave the first two. -/
theorem kill_passes_eof :
    ((idleTty { consoleTermios with eof := 200#8 } [97#8, 200#8, 98#8]).session id TtyWrite.ascii
      [[21#8]]).secondary.contents = [] ∧
    [21#8].foldl (Termios.edit TtyWrite.ascii { consoleTermios with eof := 200#8 }) [97#8, 200#8, 98#8] = [97#8, 200#8] := by
  decide +kernel

end Linux011.ChrDrv
