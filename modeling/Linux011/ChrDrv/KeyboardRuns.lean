import Mathlib.Data.Option.Basic
import Linux011.ChrDrv.Keyboard

/-!
# The keyboard — what is typed

`Ref` is the keyboard a user imagines: which keys are held follows from the codes that came
before, a key sends a sequence of characters, and the program reads the sequences one after
another.

* `callKey_spec` — what one code does to `mode` and `leds`, and what it sends;
* `keyboard_refines` — scan codes and reads in any order: `mode` says which keys are held,
  and what is read is the sequences of the keys struck, none of them in part.
-/

namespace Linux011.ChrDrv.Keyboard

variable {maps : Maps} {kbd : Layout} {ecx : BitVec 32} {scan : Byte}

/-! ## What the keys mean -/

/-- A code as it arrives, and what `e0` has of a prefix in front of it. -/
structure Event where
  before : Byte
  code   : Byte

inductive Modifier
  | lshift | rshift | lctrl | rctrl | lalt | ralt | caps
  deriving DecidableEq, Repr

namespace Modifier

/-- Where `mode` has the key. -/
def bit : Modifier → Nat
  | lshift => 0 | rshift => 1 | lctrl => 2 | rctrl => 3 | lalt => 4 | ralt => 5 | caps => 7

def makeCode : Modifier → Byte
  | lshift => 0x2a | rshift => 0x36 | lctrl => 0x1d | rctrl => 0x1d | lalt => 0x38 | ralt => 0x38 | caps => 0x3a

/-- Only the keys that share a code tell a prefix from none. -/
def hears : Modifier → Bool → Bool
  | lctrl, ext | lalt, ext => !ext
  | rctrl, ext | ralt, ext => ext
  | _, _ => true

/-- Down, up, or not about this key. -/
def effect (m : Modifier) (ext : Bool) (code : Byte) : Option Bool :=
  if !m.hears ext then none
  else if code = m.makeCode then some true
  else if code = m.makeCode ||| 0x80 then some false
  else none

end Modifier

/-- Whether a key is held after the codes of `past`, the last of them first. -/
def held (m : Modifier) : List Event → Bool
  | [] => false
  | e :: past => (m.effect (e.before != 0) e.code).getD (held m past)

/-- Caps lock changes when its key goes down, not while it repeats. -/
def capsOn : List Event → Bool
  | [] => false
  | e :: past => (e.code == 0x3a && !held .caps past) ^^ capsOn past

def numOn : List Event → Bool
  | [] => true
  | e :: past => (e.code == 0x45) ^^ numOn past

def scrollOn : List Event → Bool
  | [] => false
  | e :: past => (e.code == 0x46) ^^ scrollOn past

def shift (past : List Event) : Bool := held .lshift past || held .rshift past

def control (past : List Event) : Bool := held .lctrl past || held .rctrl past

/-- The character of a key: its place in the tables, then control, caps lock and alt. -/
def typed (maps : Maps) (past : List Event) (code : Byte) : List Byte :=
  let c := (if held .ralt past then maps.altMap
    else if shift past then maps.shiftMap else maps.keyMap).getD code.toNat 0
  if c = 0 then []
  else
    let c := if (control past || capsOn past) && decide (0x61 ≤ c ∧ c ≤ 0x7d) then c - 0x20 else c
    let c := if control past && decide (0x40 ≤ c ∧ c < 0x60) then c - 0x40 else c
    [if held .lalt past then c ||| 0x80 else c]

/-- The keypad: digits, or `esc [` and a letter, or `esc [`, a digit and `~`. Nothing after
control, alt and delete. -/
def keypad (point : Byte) (past : List Event) (e : Event) : Option (List Byte) :=
  let i := (e.code - 0x47).toNat
  let c := curTable.getD i 0
  if i = 12 ∧ control past = true ∧ (held .lalt past || held .ralt past) = true then none
  else if e.before = 1 ∨ numOn past = false ∨ shift past = true then
    some (0x1b :: 0x5b :: c :: if 0x39 < c then [] else [0x7e])
  else some [(numTable point).getD i 0]

/-- `esc [ [` and a letter, in the order of the keys. -/
def functionKey (code : Byte) : List Byte :=
  [0x1b, 0x5b, 0x5b, 0x41 + if code ≤ 0x44 then code - 0x3b else code - 0x4d]

/-- What a key sends. -/
def strike (kbd : Layout) (room : Bool) (past : List Event) (e : Event) : Option (List Byte) :=
  match keyTable e.code with
  | .doSelf => some (typed kbd.toMaps past e.code)
  | .minus => some (if e.before = 1 then [0x2f] else typed kbd.toMaps past e.code)
  | .cursor => keypad kbd.point past e
  | .func => some (if room then functionKey e.code else [])
  | _ => some []

/-- Scan codes as they come, with the `ecx` of what they interrupt, and reads of one byte. -/
inductive Input
  | code (ecx : BitVec 32) (scan : Byte)
  | take

/-- The keyboard, and what has been taken from its queue. -/
structure Sys where
  kbd   : State
  taken : List Byte

/-- A read is the `GETCH` of `copy_to_cooked`. -/
def Sys.step (kbd : Layout) : Input → Sys → Option Sys
  | .code ecx scan, s => (keyboardInterrupt kbd ecx scan s.kbd).map fun k => { s with kbd := k }
  | .take, s =>
    if s.kbd.readQ.empty then some s
    else some ⟨{ s.kbd with readQ := s.kbd.readQ.getch }, s.taken ++ [s.kbd.readQ.first]⟩

/-- The codes so far, the prefix that waits for one, the sequences queued in their order, and
how many bytes of them were read. -/
structure Ref where
  past   : List Event
  before : Byte
  sent   : List (List Byte)
  taken  : Nat

namespace Ref

def queued (r : Ref) : List Byte := r.sent.flatten.drop r.taken

/-- A code that sends `seq`. -/
def hear (code : Byte) (seq : List Byte) (r : Ref) : Ref :=
  { r with
    past := ⟨r.before, code⟩ :: r.past
    before := 0
    sent := if r.queued.length + seq.length < ttyBufSize then r.sent ++ [seq] else r.sent }

def step (kbd : Layout) : Input → Ref → Option Ref
  | .code ecx scan, r =>
    if scan = 0xe0 then some { r with before := 1 }
    else if scan = 0xe1 then some { r with before := 2 }
    else (strike kbd (!ecx.slt 4) r.past ⟨r.before, scan⟩).map fun seq => r.hear scan seq
  | .take, r => some (if r.queued = [] then r else { r with taken := r.taken + 1 })

end Ref

/-- Inputs one after another, as long as the machine does not reboot. -/
def run {σ : Type} (step : Input → σ → Option σ) : List Input → σ → Option σ
  | [], s => some s
  | i :: inputs, s => (step i s).bind (run step inputs)

/-- `mode` and `leds` say what the codes so far amount to, and the queue holds what is left
of the sequences. -/
structure Agrees (s : Sys) (r : Ref) : Prop where
  before : s.kbd.e0 = r.before
  keys   : ∀ m : Modifier, s.kbd.mode.getLsbD m.bit = held m r.past
  locked : s.kbd.mode.getLsbD 6 = capsOn r.past
  caps   : s.kbd.leds.getLsbD 2 = capsOn r.past
  num    : s.kbd.leds.getLsbD 1 = numOn r.past
  scroll : s.kbd.leds.getLsbD 0 = scrollOn r.past
  lamps  : s.kbd.lamps = none ∨ s.kbd.lamps = some s.kbd.leds
  within : r.taken ≤ r.sent.flatten.length
  taken  : s.taken = r.sent.flatten.take r.taken
  queued : s.kbd.readQ.contents = r.queued

/-! ## One code -/

/-- What a code does to `mode` and `leds`. -/
structure After (scan : Byte) (s s' : State) : Prop where
  keys   : ∀ m : Modifier, s'.mode.getLsbD m.bit = (m.effect (s.e0 != 0) scan).getD (s.mode.getLsbD m.bit)
  locked : s'.mode.getLsbD 6 = ((scan == 0x3a && !s.mode.getLsbD 7) ^^ s.mode.getLsbD 6)
  caps   : s'.leds.getLsbD 2 = ((scan == 0x3a && !s.mode.getLsbD 7) ^^ s.leds.getLsbD 2)
  num    : s'.leds.getLsbD 1 = ((scan == 0x45) ^^ s.leds.getLsbD 1)
  scroll : s'.leds.getLsbD 0 = ((scan == 0x46) ^^ s.leds.getLsbD 0)
  lamps  : s'.lamps = s.lamps ∧ s'.leds = s.leds ∨ s'.lamps = some s'.leds

/-- The key a routine is for, and whether it goes down. -/
def Routine.modifier (ext : Bool) : Routine → Option (Modifier × Bool)
  | .ctrl => some (if ext then .rctrl else .lctrl, true)
  | .unctrl => some (if ext then .rctrl else .lctrl, false)
  | .alt => some (if ext then .ralt else .lalt, true)
  | .unalt => some (if ext then .ralt else .lalt, false)
  | .lshift => some (.lshift, true)
  | .unlshift => some (.lshift, false)
  | .rshift => some (.rshift, true)
  | .unrshift => some (.rshift, false)
  | .caps => some (.caps, true)
  | .uncaps => some (.caps, false)
  | _ => Option.none

/-- The routines that leave `mode` and `leds` alone. -/
def Routine.plain : Routine → Bool
  | .none | .doSelf | .minus | .func | .cursor => true
  | _ => false

theorem Routine.plain_spec {rt : Routine} (h : rt.plain = true) (ext : Bool) :
    rt.modifier ext = Option.none ∧ rt ≠ .caps ∧ rt ≠ .num ∧ rt ≠ .scroll := by
  cases rt <;> first
    | exact ⟨rfl, by decide, by decide, by decide⟩
    | cases h

/-- The codes of a key are those that `key_table` has its routines at. -/
theorem effect_eq (m : Modifier) (ext : Bool) : ∀ scan, m.effect ext scan =
    ((keyTable scan).modifier ext).bind fun k => if m = k.1 then some k.2 else none := by
  cases m <;> cases ext <;> decide +kernel

theorem lock_codes : ∀ scan : Byte, (scan == 0x3a) = (keyTable scan == .caps) ∧
    (scan == 0x45) = (keyTable scan == .num) ∧ (scan == 0x46) = (keyTable scan == .scroll) := by
  decide +kernel

/-- The bit of a key in `mode`. -/
def Modifier.mask (m : Modifier) : Byte := BitVec.twoPow 8 m.bit

theorem getLsbD_mask (m k : Modifier) : k.mask.getLsbD m.bit = decide (m = k) := by
  cases m <;> cases k <;> decide

theorem mask_six (k : Modifier) : k.mask.getLsbD 6 = false := by
  cases k <;> decide

theorem bit_lt (m : Modifier) : m.bit < 8 := by
  cases m <;> decide

theorem getLsbD_change (x mask : Byte) (down : Bool) {i : Nat} (hi : i < 8) :
    (if down then x ||| mask else ~~~mask &&& x).getLsbD i = if mask.getLsbD i then down else x.getLsbD i := by
  cases down
  · rw [if_neg (by decide), BitVec.getLsbD_and, BitVec.getLsbD_not]
    cases mask.getLsbD i <;> simp [hi]
  · rw [if_pos rfl, BitVec.getLsbD_or]
    cases mask.getLsbD i <;> simp

variable {s s' : State} {k : Modifier}

theorem After.same (hplain : (keyTable scan).plain = true) (hmode : s'.mode = s.mode)
    (hleds : s'.leds = s.leds) (hlamps : s'.lamps = s.lamps) : After scan s s' := by
  obtain ⟨hm, hcaps, hnum, hscroll⟩ := Routine.plain_spec hplain (s.e0 != 0)
  obtain ⟨h3a, h45, h46⟩ := lock_codes scan
  rw [beq_false_of_ne hcaps] at h3a
  rw [beq_false_of_ne hnum] at h45
  rw [beq_false_of_ne hscroll] at h46
  refine ⟨fun m => ?_, ?_, ?_, ?_, ?_, .inl ⟨hlamps, hleds⟩⟩
  · rw [effect_eq, hm, hmode]
    rfl
  · rw [h3a, hmode, Bool.false_and, Bool.false_xor]
  · rw [h3a, hleds, Bool.false_and, Bool.false_xor]
  · rw [h45, hleds, Bool.false_xor]
  · rw [h46, hleds, Bool.false_xor]

/-- The routines that set or clear the bit of one key. -/
theorem After.key {down : Bool} (hm : (keyTable scan).modifier (s.e0 != 0) = some (k, down))
    (hcaps : keyTable scan ≠ .caps)
    (hs : s' = { s with mode := if down then s.mode ||| k.mask else ~~~k.mask &&& s.mode }) :
    After scan s s' := by
  subst hs
  obtain ⟨h3a, h45, h46⟩ := lock_codes scan
  rw [beq_false_of_ne hcaps] at h3a
  have hnum : keyTable scan ≠ .num := fun h => by rw [h] at hm; cases hm
  have hscroll : keyTable scan ≠ .scroll := fun h => by rw [h] at hm; cases hm
  rw [beq_false_of_ne hnum] at h45
  rw [beq_false_of_ne hscroll] at h46
  refine ⟨fun m => ?_, ?_, ?_, ?_, ?_, .inl ⟨rfl, rfl⟩⟩
  · rw [effect_eq, hm]
    dsimp only [Option.bind_some]
    rw [getLsbD_change _ _ _ (bit_lt m), getLsbD_mask]
    simp only [decide_eq_true_eq]
    by_cases hmk : m = k
    · rw [if_pos hmk, if_pos hmk]
      rfl
    · rw [if_neg hmk, if_neg hmk]
      rfl
  · rw [h3a, Bool.false_and, Bool.false_xor, getLsbD_change _ _ _ (by decide), mask_six, if_neg (by decide)]
  · rw [h3a, Bool.false_and, Bool.false_xor]
  · rw [h45, Bool.false_xor]
  · rw [h46, Bool.false_xor]

theorem side_mask {al : Byte} {l r : Modifier} (hl : al = l.mask) (hr : al + al = r.mask) :
    s.side al = (if s.e0 != 0 then r else l).mask := by
  unfold State.side
  by_cases he : s.e0 = 0
  · rw [if_pos he, he]
    exact hl
  · rw [if_neg he, bne_iff_ne.mpr he, if_pos rfl]
    exact hr

theorem After.capsKey (hcaps : keyTable scan = .caps) : After scan s s.caps := by
  obtain ⟨h3a, h45, h46⟩ := lock_codes scan
  rw [hcaps, beq_self_eq_true] at h3a
  rw [hcaps, show (Routine.caps == Routine.num) = false from rfl] at h45
  rw [hcaps, show (Routine.caps == Routine.scroll) = false from rfl] at h46
  have hcase : s.mode &&& 0x80 ≠ 0 ↔ s.mode.getLsbD 7 = true := by
    generalize s.mode = x
    revert x
    decide +kernel
  have heffect : ∀ m : Modifier, m.effect (s.e0 != 0) scan = if m = .caps then some true else none := fun m => by
    rw [effect_eq, hcaps]
    rfl
  unfold State.caps
  by_cases hdown : s.mode &&& 0x80 ≠ 0
  · have h7 := hcase.mp hdown
    rw [if_pos hdown]
    refine ⟨fun m => ?_, ?_, ?_, ?_, ?_, .inl ⟨rfl, rfl⟩⟩
    · rw [heffect]
      by_cases hm : m = .caps
      · rw [if_pos hm, hm]
        exact h7
      · rw [if_neg hm]
        rfl
    · rw [h7, Bool.not_true, Bool.and_false, Bool.false_xor]
    · rw [h7, Bool.not_true, Bool.and_false, Bool.false_xor]
    · rw [h45]
      exact (Bool.false_xor _).symm
    · rw [h46]
      exact (Bool.false_xor _).symm
  · have h7 : s.mode.getLsbD 7 = false := by simpa using mt hcase.mpr hdown
    rw [if_neg hdown]
    refine ⟨fun m => ?_, ?_, ?_, ?_, ?_, .inr rfl⟩
    · rw [heffect]
      cases m <;> simp [State.setLeds, Modifier.bit]
    · rw [h3a, h7]
      simp [State.setLeds]
    · rw [h3a, h7]
      simp [State.setLeds]
    · rw [h45]
      simp [State.setLeds]
    · rw [h46]
      simp [State.setLeds]

/-- The routines that change one light. -/
theorem After.light {mask : Byte} (hm : (keyTable scan).modifier (s.e0 != 0) = none)
    (hcaps : keyTable scan ≠ .caps) (h2 : mask.getLsbD 2 = false)
    (h1 : mask.getLsbD 1 = (keyTable scan == .num)) (h0 : mask.getLsbD 0 = (keyTable scan == .scroll)) :
    After scan s (State.setLeds { s with leds := s.leds ^^^ mask }) := by
  obtain ⟨h3a, h45, h46⟩ := lock_codes scan
  rw [beq_false_of_ne hcaps] at h3a
  refine ⟨fun m => ?_, ?_, ?_, ?_, ?_, .inr rfl⟩
  · rw [effect_eq, hm]
    rfl
  · rw [h3a, Bool.false_and, Bool.false_xor]
    rfl
  · rw [h3a, Bool.false_and, Bool.false_xor, State.setLeds, BitVec.getLsbD_xor, h2, Bool.xor_false]
  · rw [h45, ← h1, Bool.xor_comm]
    simp [State.setLeds]
  · rw [h46, ← h0, Bool.xor_comm]
    simp [State.setLeds]

/-! ## What it sends -/

variable {past : List Event} {e : Event}

/-- Both sides have gone wrong, or neither. -/
theorem rel_cases {α β : Type} {R : α → β → Prop} {x : Option α} {y : Option β} (h : Option.Rel R x y) :
    x = none ∧ y = none ∨ ∃ a b, x = some a ∧ y = some b ∧ R a b := by
  cases h with
  | none => exact .inl ⟨rfl, rfl⟩
  | some hab => exact .inr ⟨_, _, rfl, rfl, hab⟩

theorem test_mode : ∀ x : Byte,
    (x &&& 0x03 ≠ 0 ↔ (x.getLsbD 0 || x.getLsbD 1) = true) ∧
    (x &&& 0x0c ≠ 0 ↔ (x.getLsbD 2 || x.getLsbD 3) = true) ∧
    (x &&& 0x30 ≠ 0 ↔ (x.getLsbD 4 || x.getLsbD 5) = true) ∧
    (x &&& 0x4c ≠ 0 ↔ ((x.getLsbD 2 || x.getLsbD 3) || x.getLsbD 6) = true) ∧
    (x &&& 0x10 ≠ 0 ↔ x.getLsbD 4 = true) ∧ (x &&& 0x20 ≠ 0 ↔ x.getLsbD 5 = true) := by
  decide +kernel

/-- The part of `Agrees` that the routines look at. -/
structure Reads (s : State) (past : List Event) : Prop where
  keys   : ∀ m : Modifier, s.mode.getLsbD m.bit = held m past
  locked : s.mode.getLsbD 6 = capsOn past
  num    : s.leds.getLsbD 1 = numOn past

namespace Reads

variable (h : Reads s past)

include h

theorem shift_iff : s.mode &&& 0x03 ≠ 0 ↔ shift past = true := by
  unfold shift
  rw [← h.keys, ← h.keys]
  exact (test_mode s.mode).1

theorem control_iff : s.mode &&& 0x0c ≠ 0 ↔ control past = true := by
  unfold control
  rw [← h.keys, ← h.keys]
  exact (test_mode s.mode).2.1

theorem alts_iff : s.mode &&& 0x30 ≠ 0 ↔ (held .lalt past || held .ralt past) = true := by
  rw [← h.keys, ← h.keys]
  exact (test_mode s.mode).2.2.1

theorem upper_iff : s.mode &&& 0x4c ≠ 0 ↔ (control past || capsOn past) = true := by
  unfold control
  rw [← h.keys, ← h.keys, ← h.locked]
  exact (test_mode s.mode).2.2.2.1

theorem alt_iff : s.mode &&& 0x10 ≠ 0 ↔ held .lalt past = true := by
  rw [← h.keys]
  exact (test_mode s.mode).2.2.2.2.1

theorem altGr_iff : s.mode &&& 0x20 ≠ 0 ↔ held .ralt past = true := by
  rw [← h.keys]
  exact (test_mode s.mode).2.2.2.2.2

theorem num_iff : s.leds &&& 0x02 = 0 ↔ numOn past = false := by
  rw [← h.num]
  generalize s.leds = x
  revert x
  decide +kernel

theorem lookup_eq : lookup maps scan s.mode =
    (if held .ralt past then maps.altMap
      else if shift past then maps.shiftMap else maps.keyMap).getD scan.toNat 0 := by
  unfold lookup
  simp only [h.altGr_iff, h.shift_iff]

theorem selfChar_eq (c : Byte) : selfChar s.mode c =
    (let c := if (control past || capsOn past) && decide (0x61 ≤ c ∧ c ≤ 0x7d) then c - 0x20 else c
    let c := if control past && decide (0x40 ≤ c ∧ c < 0x60) then c - 0x40 else c
    if held .lalt past then c ||| 0x80 else c) := by
  have hupper : ∀ c : Byte, (if c < 0x61 then c else if 0x7d < c then c else c - 32) =
      if 0x61 ≤ c ∧ c ≤ 0x7d then c - 0x20 else c := by decide +kernel
  have hctrl : ∀ c : Byte, (if c < 64 then c else if 64 + 32 ≤ c then c else c - 64) =
      if 0x40 ≤ c ∧ c < 0x60 then c - 0x40 else c := by decide +kernel
  unfold selfChar
  simp only [h.upper_iff, h.control_iff, h.alt_iff, hupper, hctrl, Bool.and_eq_true, decide_eq_true_eq, ite_and]

end Reads

/-- A routine that leaves `mode` and `leds` alone and sends `seq`. -/
structure Sends (s s' : State) (seq : List Byte) : Prop where
  mode  : s'.mode = s.mode
  leds  : s'.leds = s.leds
  lamps : s'.lamps = s.lamps
  readQ : s'.readQ.contents = offer seq s.readQ.contents

theorem offer_nil (q : TtyQueue) : offer [] q.contents = q.contents := by
  unfold offer
  rw [List.append_nil, ite_self]

theorem Sends.none (s : State) : Sends s s [] := ⟨rfl, rfl, rfl, (offer_nil _).symm⟩

theorem Sends.put (s : State) {w : BitVec 32} {seq : List Byte} (h : seqOf 8 w = seq) : Sends s (s.put w) seq :=
  ⟨rfl, rfl, rfl, by rw [← h]; exact contents_putQueue w _⟩

theorem sends_doSelf (h : Reads s past) : Sends s (doSelf maps scan s) (typed maps past scan) := by
  unfold doSelf typed
  rw [h.lookup_eq]
  dsimp only
  generalize (if held .ralt past then maps.altMap
    else if shift past then maps.shiftMap else maps.keyMap).getD scan.toNat 0 = c
  by_cases hc : c = 0
  · rw [if_pos hc, if_pos hc]
    exact Sends.none s
  · rw [if_neg hc, if_neg hc]
    exact Sends.put s (by rw [seqOf_byte, h.selfChar_eq])

theorem sends_minus (h : Reads s past) :
    Sends s (minus maps scan s) (if s.e0 = 1 then [0x2f] else typed maps past scan) := by
  unfold minus
  split_ifs with hprefix
  · exact Sends.put s (by decide)
  · exact sends_doSelf h

/-- What the routines of the keypad and of the function keys rely on `key_table` for. -/
theorem keypad_codes : ∀ scan : Byte, keyTable scan = .cursor →
    ¬ scan < 0x47 ∧ ¬ 12 < scan - 0x47 ∧ (scan - 0x47 = 12 ↔ (scan - 0x47).toNat = 12) ∧
    seqOf 8 (curWord (scan - 0x47)) = 0x1b :: 0x5b :: curTable.getD (scan - 0x47).toNat 0 ::
      if 0x39 < curTable.getD (scan - 0x47).toNat 0 then [] else [0x7e] := by
  decide +kernel

theorem func_codes : ∀ scan : Byte, keyTable scan = .func →
    ((funcIndex scan).map fun i => seqOf 8 (funcTable.getD i 0)) = some (functionKey scan) := by
  decide +kernel

theorem sends_func (hkey : keyTable scan = .func) :
    Sends s (func ecx scan s) (if !ecx.slt 4 then functionKey scan else []) := by
  have hcode := func_codes scan hkey
  unfold func
  cases hi : funcIndex scan with
  | none =>
    rw [hi] at hcode
    cases hcode
  | some i =>
    rw [hi, Option.map_some, Option.some_inj] at hcode
    cases hroom : ecx.slt 4
    · exact Sends.put s hcode
    · exact Sends.none s

theorem sends_cursor {point : Byte} (h : Reads s past) (hkey : keyTable scan = .cursor) :
    Option.Rel (Sends s) (cursor point scan s) (keypad point past ⟨s.e0, scan⟩) := by
  obtain ⟨hlow, hhigh, hdel, hseq⟩ := keypad_codes scan hkey
  unfold cursor keypad
  dsimp only
  rw [if_neg hlow, if_neg hhigh]
  simp only [hdel, h.control_iff, h.alts_iff, h.num_iff, h.shift_iff]
  by_cases hreboot : (scan - 0x47).toNat = 12 ∧ control past = true ∧
      (held .lalt past || held .ralt past) = true
  · rw [if_pos hreboot, if_pos hreboot]
    exact .none
  rw [if_neg hreboot, if_neg hreboot, ← ite_or, ← ite_or]
  by_cases hmove : s.e0 = 1 ∨ numOn past = false ∨ shift past = true
  · rw [if_pos (by simpa only [or_assoc] using hmove), if_pos hmove]
    exact .some (Sends.put s hseq)
  · rw [if_neg (by simpa only [or_assoc] using hmove), if_neg hmove]
    exact .some (Sends.put s (seqOf_byte _))

/-- A routine of `key_table`, and what its code means. -/
theorem callKey_spec (h : Reads s past) : Option.Rel
    (fun s' seq => After scan s s' ∧ s'.readQ.contents = offer seq s.readQ.contents)
    (callKey kbd ecx scan s) (strike kbd (!ecx.slt 4) past ⟨s.e0, scan⟩) := by
  have hsends : ∀ {s' : State} {seq : List Byte}, (keyTable scan).plain = true → Sends s s' seq →
      After scan s s' ∧ s'.readQ.contents = offer seq s.readQ.contents :=
    fun hp hsend => ⟨After.same hp hsend.mode hsend.leds hsend.lamps, hsend.readQ⟩
  have hquiet : ∀ {s' : State}, s'.readQ = s.readQ → s'.readQ.contents = offer [] s.readQ.contents :=
    fun hq => by rw [hq, offer_nil]
  have hctrl : s.side 0x04 = (if s.e0 != 0 then Modifier.rctrl else .lctrl).mask := side_mask rfl rfl
  have halt : s.side 0x10 = (if s.e0 != 0 then Modifier.ralt else .lalt).mask := side_mask rfl rfl
  unfold callKey strike
  dsimp only
  cases hkey : keyTable scan with
  | none => exact .some (hsends (by rw [hkey]; rfl) (Sends.none s))
  | doSelf => exact .some (hsends (by rw [hkey]; rfl) (sends_doSelf h))
  | minus => exact .some (hsends (by rw [hkey]; rfl) (sends_minus h))
  | func => exact .some (hsends (by rw [hkey]; rfl) (sends_func hkey))
  | cursor =>
    have hcursor : Option.Rel (Sends s) (cursor kbd.point scan s) (keypad kbd.point past ⟨s.e0, scan⟩) :=
      sends_cursor h hkey
    obtain ⟨hk, hr⟩ | ⟨s', seq, hk, hr, hsend⟩ := rel_cases hcursor <;> dsimp only <;> rw [hk, hr]
    · exact .none
    · exact .some (hsends (by rw [hkey]; rfl) hsend)
  | ctrl =>
    refine .some ⟨After.key (by rw [hkey]; rfl) (by simp [hkey]) ?_, hquiet rfl⟩
    unfold State.ctrl
    rw [hctrl]
    rfl
  | unctrl =>
    refine .some ⟨After.key (by rw [hkey]; rfl) (by simp [hkey]) ?_, hquiet rfl⟩
    unfold State.unctrl
    rw [hctrl]
    rfl
  | alt =>
    refine .some ⟨After.key (by rw [hkey]; rfl) (by simp [hkey]) ?_, hquiet rfl⟩
    unfold State.alt
    rw [halt]
    rfl
  | unalt =>
    refine .some ⟨After.key (by rw [hkey]; rfl) (by simp [hkey]) ?_, hquiet rfl⟩
    unfold State.unalt
    rw [halt]
    rfl
  | lshift => exact .some ⟨After.key (by rw [hkey]; rfl) (by simp [hkey]) rfl, hquiet rfl⟩
  | rshift => exact .some ⟨After.key (by rw [hkey]; rfl) (by simp [hkey]) rfl, hquiet rfl⟩
  | unlshift =>
    refine .some ⟨After.key (by rw [hkey]; rfl) (by simp [hkey]) ?_, hquiet rfl⟩
    unfold State.unlshift
    rw [BitVec.and_comm]
    rfl
  | unrshift =>
    refine .some ⟨After.key (by rw [hkey]; rfl) (by simp [hkey]) ?_, hquiet rfl⟩
    unfold State.unrshift
    rw [BitVec.and_comm]
    rfl
  | uncaps =>
    refine .some ⟨After.key (by rw [hkey]; rfl) (by simp [hkey]) ?_, hquiet rfl⟩
    unfold State.uncaps
    rw [BitVec.and_comm]
    rfl
  | caps =>
    refine .some ⟨After.capsKey hkey, hquiet ?_⟩
    unfold State.caps
    split_ifs <;> rfl
  | num =>
    exact .some ⟨After.light (by rw [hkey]; rfl) (by simp [hkey]) rfl (by rw [hkey]; rfl)
      (by rw [hkey]; rfl), hquiet rfl⟩
  | scroll =>
    exact .some ⟨After.light (by rw [hkey]; rfl) (by simp [hkey]) rfl (by rw [hkey]; rfl)
      (by rw [hkey]; rfl), hquiet rfl⟩

/-! ## Runs -/

variable {y : Sys} {r : Ref}

theorem Agrees.reads (h : Agrees y r) : Reads y.kbd r.past := ⟨h.keys, h.locked, h.num⟩

/-- What was taken and what is queued are what was sent. -/
theorem Agrees.offered (h : Agrees y r) (code : Byte) (seq : List Byte) :
    (r.hear code seq).queued = offer seq y.kbd.readQ.contents ∧
    (r.hear code seq).sent.flatten.take r.taken = y.taken ∧
    r.taken ≤ (r.hear code seq).sent.flatten.length := by
  unfold offer Ref.hear
  rw [h.queued, h.taken]
  dsimp only
  split_ifs with hroom
  · unfold Ref.queued
    dsimp only
    rw [List.flatten_append, List.flatten_singleton, List.drop_append_of_le_length h.within,
      List.take_append_of_le_length h.within, List.length_append]
    exact ⟨rfl, rfl, Nat.le_add_right_of_le h.within⟩
  · exact ⟨rfl, rfl, h.within⟩

/-- A code that is no prefix. -/
theorem Agrees.hear {k : State} {seq : List Byte} (h : Agrees y r) (ha : After scan y.kbd k)
    (hq : k.readQ.contents = offer seq y.kbd.readQ.contents) :
    Agrees { y with kbd := { k with e0 := 0 } } (r.hear scan seq) := by
  obtain ⟨hqueued, htaken, hwithin⟩ := h.offered scan seq
  have hcaps : y.kbd.mode.getLsbD 7 = held .caps r.past := h.keys .caps
  refine ⟨rfl, fun m => ?_, ?_, ?_, ?_, ?_, ?_, hwithin, htaken.symm, hq.trans hqueued.symm⟩
  · exact (ha.keys m).trans (by rw [h.keys, h.before]; rfl)
  · exact ha.locked.trans (by rw [hcaps, h.locked]; rfl)
  · exact ha.caps.trans (by rw [hcaps, h.caps]; rfl)
  · exact ha.num.trans (by rw [h.num]; rfl)
  · exact ha.scroll.trans (by rw [h.scroll]; rfl)
  · obtain ⟨hlamps, hleds⟩ | hshown := ha.lamps
    · dsimp only
      rw [hlamps, hleds]
      exact h.lamps
    · exact .inr hshown

/-- A prefix waits for the code after it. -/
theorem Agrees.wait (h : Agrees y r) (c : Byte) :
    Agrees { y with kbd := { y.kbd with e0 := c } } { r with before := c } :=
  ⟨rfl, h.keys, h.locked, h.caps, h.num, h.scroll, h.lamps, h.within, h.taken, h.queued⟩

theorem Agrees.take (h : Agrees y r) : Option.Rel Agrees (Sys.step kbd .take y) (Ref.step kbd .take r) := by
  unfold Sys.step Ref.step
  dsimp only
  have hnil : r.queued = [] ↔ y.kbd.readQ.empty = true := by rw [← h.queued, TtyQueue.contents_eq_nil_iff]
  by_cases hempty : y.kbd.readQ.empty = true
  · rw [if_pos hempty, if_pos (hnil.mpr hempty)]
    exact .some h
  · rw [if_neg hempty, if_neg (mt hnil.mp hempty)]
    have hfirst := TtyQueue.contents_getch (q := y.kbd.readQ) (by simpa using hempty)
    rw [h.queued] at hfirst
    have hlt : r.taken < r.sent.flatten.length := by
      have hlength := congrArg List.length hfirst
      unfold Ref.queued at hlength
      rw [List.length_drop, List.length_cons] at hlength
      omega
    have hget : r.sent.flatten[r.taken] = y.kbd.readQ.first ∧
        r.sent.flatten.drop (r.taken + 1) = y.kbd.readQ.getch.contents := by
      unfold Ref.queued at hfirst
      rw [List.drop_eq_getElem_cons hlt] at hfirst
      exact ⟨(List.cons.inj hfirst).1, (List.cons.inj hfirst).2⟩
    refine .some ⟨h.before, h.keys, h.locked, h.caps, h.num, h.scroll, h.lamps, hlt, ?_, hget.2.symm⟩
    dsimp only
    rw [h.taken, ← hget.1, List.take_succ_eq_append_getElem hlt]

/-- One input. -/
theorem agrees_step (h : Agrees y r) (i : Input) :
    Option.Rel Agrees (Sys.step kbd i y) (Ref.step kbd i r) := by
  cases i with
  | take => exact h.take
  | code ecx scan =>
    unfold Sys.step Ref.step keyboardInterrupt
    dsimp only
    by_cases he0 : scan = 0xe0
    · rw [if_pos he0, if_pos he0]
      exact .some (h.wait 1)
    by_cases he1 : scan = 0xe1
    · rw [if_neg he0, if_neg he0, if_pos he1, if_pos he1]
      exact .some (h.wait 2)
    rw [if_neg he0, if_neg he0, if_neg he1, if_neg he1]
    have hspec := @callKey_spec kbd ecx scan y.kbd r.past h.reads
    rw [h.before] at hspec
    obtain ⟨hk, hseq⟩ | ⟨k, seq, hk, hseq, hafter, hqueue⟩ := rel_cases hspec <;> rw [hk, hseq]
    · exact .none
    · exact .some (h.hear hafter hqueue)

theorem agrees_run (h : Agrees y r) (inputs : List Input) :
    Option.Rel Agrees (run (Sys.step kbd) inputs y) (run (Ref.step kbd) inputs r) := by
  induction inputs generalizing y r with
  | nil => exact .some h
  | cons i inputs ih =>
    unfold run
    obtain ⟨hy, hr⟩ | ⟨y', r', hy, hr, hnext⟩ := rel_cases (@agrees_step kbd y r h i) <;> rw [hy, hr]
    · exact .none
    · exact ih hnext

/-- As the data of `keyboard.S` are: number lock is on. -/
def powerOn (data : Nat) : Sys := ⟨⟨0, 2, 0, none, TtyQueue.init data⟩, []⟩

/-- Scan codes and reads in any order, from the start: the bits of `mode` are the keys that
are held and caps lock, the lights are the locks, what was read and what is queued are the
sequences of the keys struck, each of them whole; and control, alt and delete reboot. -/
theorem keyboard_refines (kbd : Layout) (data : Nat) (inputs : List Input) :
    Option.Rel Agrees (run (Sys.step kbd) inputs (powerOn data)) (run (Ref.step kbd) inputs ⟨[], 0, [], 0⟩) := by
  have hmode : ∀ i, (0 : Byte).getLsbD i = false := fun i => BitVec.getLsbD_zero
  have hleds : (2 : Byte).getLsbD 2 = false ∧ (2 : Byte).getLsbD 1 = true ∧ (2 : Byte).getLsbD 0 = false := by decide
  have hstart : Agrees (powerOn data) ⟨[], 0, [], 0⟩ :=
    ⟨rfl, fun m => hmode m.bit, hmode 6, hleds.1, hleds.2.1, hleds.2.2, .inl rfl, Nat.le_refl _, rfl,
      TtyQueue.contents_eq_nil_iff.mpr rfl⟩
  exact agrees_run hstart inputs

/-- Shift and `2`, and after the shift is up caps lock and `a`. -/
example : typed finnish.toMaps [⟨0, 0x2a⟩] 0x03 = [0x22] ∧
    typed finnish.toMaps [⟨0, 0x3a⟩, ⟨0, 0xaa⟩, ⟨0, 0x2a⟩] 0x1e = [0x41] := by decide

end Linux011.ChrDrv.Keyboard
