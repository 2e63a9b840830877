import Linux011.Kernel.Sched
import Linux011.Kernel.Vsprintf

/-!
# `vsprintf` — formats

The loop of `vsprintf` over the format, with `skip_atoi`. A format is what is at `fmt`: its
text, the 0 and whatever comes after it.

* `skipAtoi_decimal` — a number in the format is read as it is written;
* `vsprintfLoop_piece` — one conversion, with its flags, width and precision;
* `vsprintf_pieces` — every format that is made of texts and conversions.

A `*` is not skipped after its argument was taken, and is printed: a conversion ends there,
and is a piece of its own.
-/

namespace Linux011.Kernel.Vsprintf

open Linux011.Kernel.Sched (wrap wrap_of_fits)

/-! ## The code -/

/-- `is_digit`. -/
def isDigit (c : Char) : Bool := 48 ≤ c.toNat && c.toNat ≤ 57

/-- `*fmt`. -/
def peek (fmt : List Char) : Char := fmt.headD '\x00'

/-- `skip_atoi`. -/
def skipAtoi : List Char → Int → Int × List Char
  | [], i => (i, [])
  | c :: s, i => if isDigit c then skipAtoi s (wrap (i * 10 + c.toNat - 48)) else (i, c :: s)

/-- From `repeat` on. -/
def skipFlags : List Char → Word → Word × List Char
  | [], flags => (flags, [])
  | c :: fmt, flags =>
    if c = '-' then skipFlags fmt (flags ||| left)
    else if c = '+' then skipFlags fmt (flags ||| plus)
    else if c = ' ' then skipFlags fmt (flags ||| space)
    else if c = '#' then skipFlags fmt (flags ||| special)
    else if c = '0' then skipFlags fmt (flags ||| zeropad)
    else (flags, c :: fmt)

/-- What is in `buf`, how many arguments `va_arg` took, and what `%n` stored. -/
structure Out where
  str    : List Char
  taken  : Nat
  stored : List (Word × Nat)
  deriving DecidableEq

def Out.put (o : Out) (cs : List Char) : Out := { o with str := o.str ++ cs }

def Out.take (o : Out) : Out := { o with taken := o.taken + 1 }

/-- The words on the stack, and the strings of the addresses that are some of them. -/
structure Args where
  word : Nat → Word
  text : Word → List Char

variable (args : Args)

/-- `va_arg`. -/
def Args.arg (o : Out) : Word := args.word o.taken

def fieldWidth (fmt : List Char) (flags : Word) (o : Out) : Int × Word × List Char × Out :=
  if isDigit (peek fmt) then ((skipAtoi fmt 0).1, flags, (skipAtoi fmt 0).2, o)
  else if peek fmt = '*' then
    let width := (args.arg o).toInt
    if width < 0 then (wrap (-width), flags ||| left, fmt, o.take) else (width, flags, fmt, o.take)
  else (-1, flags, fmt, o)

def getPrecision (fmt : List Char) (o : Out) : Int × List Char × Out :=
  if peek fmt = '.' then
    let fmt := fmt.tail
    let (precision, fmt, o) :=
      if isDigit (peek fmt) then ((skipAtoi fmt 0).1, (skipAtoi fmt 0).2, o)
      else if peek fmt = '*' then ((args.arg o).toInt, fmt, o.take)
      else (-1, fmt, o)
    (if precision < 0 then 0 else precision, fmt, o)
  else (-1, fmt, o)

def skipQualifier (fmt : List Char) : List Char :=
  if peek fmt = 'h' ∨ peek fmt = 'l' ∨ peek fmt = 'L' then fmt.tail else fmt

/-- `while (--field_width > 0) *str++ = ' '`: `field_width` after it, and the output. -/
def padChar (width : Int) (str : List Char) : Int × List Char :=
  if width - 1 > 0 then padChar (width - 1) (str ++ [' ']) else (width - 1, str)
termination_by width.toNat

/-- `while (len < field_width--) *str++ = ' '`. -/
def padString (len width : Int) (str : List Char) : Int × List Char :=
  if len < width then padString len (width - 1) (str ++ [' ']) else (width - 1, str)
termination_by (width - len).toNat

def putChar (flags : Word) (width : Int) (c : Char) (str : List Char) : List Char :=
  let (width, str) := if has flags left then (width, str) else padChar width str
  (padChar width (str ++ [c])).2

def putString (flags : Word) (width precision : Int) (s str : List Char) : List Char :=
  let len : Int := if precision < 0 then s.length else if s.length > precision then precision else s.length
  let (width, str) := if has flags left then (width, str) else padString len width str
  (padString len width (str ++ s.take len.toNat)).2

/-- `str = number(str, ...)`. -/
def putNumber (base : Int) (flags : Word) (width precision : Int) (o : Out) : Out :=
  o.take.put ((number (args.arg o) base width precision flags).getD [])

/-- The last `switch`, and `++fmt`. -/
def conversion (fmt : List Char) (flags : Word) (width precision : Int) (o : Out) : List Char × Out :=
  let c := peek fmt
  if c = 'c' then
    (fmt.tail, { o.take with str := putChar flags width (Char.ofNat ((args.arg o).toNat % 256)) o.str })
  else if c = 's' then
    (fmt.tail, { o.take with str := putString flags width precision (args.text (args.arg o)) o.str })
  else if c = 'o' then (fmt.tail, putNumber args 8 flags width precision o)
  else if c = 'p' then
    if width = -1 then (fmt.tail, putNumber args 16 (flags ||| zeropad) 8 precision o)
    else (fmt.tail, putNumber args 16 flags width precision o)
  else if c = 'x' then (fmt.tail, putNumber args 16 (flags ||| small) width precision o)
  else if c = 'X' then (fmt.tail, putNumber args 16 flags width precision o)
  else if c = 'd' ∨ c = 'i' then (fmt.tail, putNumber args 10 (flags ||| sign) width precision o)
  else if c = 'u' then (fmt.tail, putNumber args 10 flags width precision o)
  else if c = 'n' then (fmt.tail, { o.take with stored := o.stored ++ [(args.arg o, o.str.length)] })
  else
    let o := if c ≠ '%' then o.put ['%'] else o
    -- at the 0 the pointer goes one back first
    if c ≠ '\x00' then (fmt.tail, o.put [c]) else (fmt, o)

/-- The loop over the format; nothing after more rounds. -/
def vsprintfLoop : Nat → List Char → Out → Option Out
  | 0, _, _ => none
  | n + 1, fmt, o =>
    if peek fmt = '\x00' then some o
    else if peek fmt ≠ '%' then vsprintfLoop n fmt.tail (o.put [peek fmt])
    else
      let (flags, fmt) := skipFlags fmt.tail 0
      let (width, flags, fmt, o) := fieldWidth args fmt flags o
      let (precision, fmt, o) := getPrecision args fmt o
      let (fmt, o) := conversion args (skipQualifier fmt) flags width precision o
      vsprintfLoop n fmt o

/-- `vsprintf`. It returns the length of `str`. -/
def vsprintf (fmt : List Char) : Option Out := vsprintfLoop args (fmt.length + 1) fmt ⟨[], 0, []⟩

/-! ## Formats -/

inductive Flag
  | minus | plus | blank | hash | zero
  deriving DecidableEq, Repr

def Flag.char : Flag → Char
  | minus => '-' | plus => '+' | blank => ' ' | hash => '#' | zero => '0'

def Flag.bit : Flag → Word
  | minus => left | plus => Vsprintf.plus | blank => space | hash => special | zero => zeropad

def flagsOf (flags : List Flag) : Word := flags.foldl (fun w f => w ||| f.bit) 0

inductive Qualifier
  | h | l | L
  deriving DecidableEq, Repr

def Qualifier.char : Qualifier → Char
  | h => 'h' | l => 'l' | L => 'L'

inductive Conv
  | c | s | o | p | x | X | d | i | u | n | percent
  deriving DecidableEq, Repr

def Conv.char : Conv → Char
  | c => 'c' | s => 's' | o => 'o' | p => 'p' | x => 'x' | X => 'X' | d => 'd' | i => 'i' | u => 'u' | n => 'n'
  | percent => '%'

/-- A conversion. The width is 0 if there is none. The precision is given by the digits behind
the point: there may be none, and the first may be 0. -/
structure Spec where
  flags     : List Flag
  width     : Nat
  precision : Option (List Nat)
  qualifier : Option Qualifier
  conv      : Conv

/-- A `*` stands for the width, or for the precision behind a width. -/
inductive Piece
  | text (c : Char)
  | spec (s : Spec)
  | star (flags : List Flag) (width : Option Nat)

/-- The digits of a number; none of 0. -/
def decimal (n : Nat) : List Char := (Nat.digits 10 n).reverse.map fun d => Char.ofNat (48 + d)

def precisionChars : Option (List Nat) → List Char
  | none => []
  | some ds => '.' :: ds.map fun d => Char.ofNat (48 + d)

def starChars : Option Nat → List Char
  | none => ['*']
  | some w => decimal w ++ ['.', '*']

/-- The value of digits behind a number. -/
def valueFrom (i : Nat) (ds : List Nat) : Nat := ds.foldl (fun i d => i * 10 + d) i

/-- The precision as a number. -/
def Spec.limit (s : Spec) : Option Nat := s.precision.map (valueFrom 0)

/-- How it is written. -/
def Piece.chars : Piece → List Char
  | text c => [c]
  | spec s =>
    '%' :: (s.flags.map Flag.char ++ (decimal s.width ++ (precisionChars s.precision ++
      ((s.qualifier.map Qualifier.char).toList ++ [s.conv.char]))))
  | star flags width => '%' :: (flags.map Flag.char ++ starChars width)

/-- What `size` of `number` is computed from without an overflow. -/
def maxNumber : Nat := 2 ^ 31 - 8

/-- Text is neither a conversion nor the end, and the numbers are small enough. -/
def Piece.Valid : Piece → Prop
  | text c => c ≠ '%' ∧ c ≠ '\x00'
  | spec s => s.width ≤ maxNumber ∧ ∀ ds, s.precision = some ds → (∀ d ∈ ds, d < 10) ∧ valueFrom 0 ds ≤ maxNumber
  | star _ width => ∀ w, width = some w → w ≤ maxNumber

/-- At the left of the field, or at its right. -/
def justify (leftward : Bool) (width : Nat) (cs : List Char) : List Char :=
  if leftward then cs ++ List.replicate (width - cs.length) ' '
  else List.replicate (width - cs.length) ' ' ++ cs

/-- The first `precision` characters of a string. -/
def cut : Option Nat → List Char → List Char
  | none, cs => cs
  | some n, cs => cs.take n

def widthOf (n : Nat) : Int := if n = 0 then -1 else n

def precisionOf : Option Nat → Int
  | none => -1
  | some n => n

/-- What a number is printed as. -/
def printed (num : Word) (base : Int) (flags : Word) (width : Nat) (precision : Option Nat) : List Char :=
  (number num base (widthOf width) (precisionOf precision) flags).getD []

/-- What a conversion does. -/
def Spec.run (s : Spec) (o : Out) : Out :=
  let flags := flagsOf s.flags
  let arg := args.arg o
  match s.conv with
  | .c => o.take.put (justify (has flags left) s.width [Char.ofNat (arg.toNat % 256)])
  | .s => o.take.put (justify (has flags left) s.width (cut s.limit (args.text arg)))
  | .o => o.take.put (printed arg 8 flags s.width s.limit)
  | .p =>
    if s.width = 0 then o.take.put (printed arg 16 (flags ||| zeropad) 8 s.limit)
    else o.take.put (printed arg 16 flags s.width s.limit)
  | .x => o.take.put (printed arg 16 (flags ||| small) s.width s.limit)
  | .X => o.take.put (printed arg 16 flags s.width s.limit)
  | .d | .i => o.take.put (printed arg 10 (flags ||| sign) s.width s.limit)
  | .u => o.take.put (printed arg 10 flags s.width s.limit)
  | .n => { o.take with stored := o.stored ++ [(arg, o.str.length)] }
  | .percent => o.put ['%']

def Piece.run (o : Out) : Piece → Out
  | text c => o.put [c]
  | spec s => s.run args o
  | star _ _ => o.take.put ['%', '*']

/-! ## The parts of a conversion -/

variable {args} {fmt rest : List Char} {o : Out}

theorem skipFlags_eq (flags : List Flag) (hrest : ∀ f : Flag, peek rest ≠ f.char) (w : Word) :
    skipFlags (flags.map Flag.char ++ rest) w = (flags.foldl (fun w f => w ||| f.bit) w, rest) := by
  induction flags generalizing w with
  | nil =>
    cases rest with
    | nil => rfl
    | cons c rest =>
      rw [List.map_nil, List.nil_append, skipFlags, if_neg (show c ≠ '-' from hrest .minus),
        if_neg (show c ≠ '+' from hrest .plus), if_neg (show c ≠ ' ' from hrest .blank),
        if_neg (show c ≠ '#' from hrest .hash), if_neg (show c ≠ '0' from hrest .zero)]
      rfl
  | cons f flags ih =>
    rw [List.map_cons, List.cons_append, List.foldl_cons, ← ih]
    cases f <;> rfl

theorem isDigit_ofNat : ∀ d < 10, isDigit (Char.ofNat (48 + d)) = true ∧ (Char.ofNat (48 + d)).toNat = 48 + d := by
  decide

theorem le_valueFrom (i : Nat) (ds : List Nat) : i ≤ valueFrom i ds := by
  induction ds generalizing i with
  | nil => exact Nat.le_refl i
  | cons d ds ih => exact Nat.le_trans (by omega) (ih (i * 10 + d))

/-- Digits in front of something else are read, if the number is an `int`. -/
theorem skipAtoi_digits {ds : List Nat} (hds : ∀ d ∈ ds, d < 10) (hrest : isDigit (peek rest) = false) (i : Nat)
    (hfits : valueFrom i ds < 2147483648) :
    skipAtoi (ds.map (fun d => Char.ofNat (48 + d)) ++ rest) i = (((valueFrom i ds : Nat) : Int), rest) := by
  induction ds generalizing i with
  | nil =>
    cases rest with
    | nil => rfl
    | cons c rest =>
      have hc : ¬ isDigit c = true := Bool.not_eq_true _ ▸ hrest
      rw [List.map_nil, List.nil_append, skipAtoi, if_neg hc]
      rfl
  | cons d ds ih =>
    obtain ⟨hdigit, hvalue⟩ := isDigit_ofNat d (hds d List.mem_cons_self)
    have hle : i * 10 + d ≤ valueFrom i (d :: ds) := le_valueFrom (i * 10 + d) ds
    have hnext : wrap (i * 10 + (48 + d : Nat) - 48) = ((i * 10 + d : Nat) : Int) := by
      rw [wrap_of_fits (by omega) (by omega)]
      omega
    rw [List.map_cons, List.cons_append, skipAtoi, if_pos hdigit, hvalue, hnext]
    exact ih (fun e he => hds e (List.mem_cons_of_mem d he)) _ hfits

theorem skipAtoi_decimal {n : Nat} (hn : n < 2147483648) (hrest : isDigit (peek rest) = false) :
    skipAtoi (decimal n ++ rest) 0 = ((n : Int), rest) := by
  have hvalue : valueFrom 0 (Nat.digits 10 n).reverse = n := by
    unfold valueFrom
    rw [List.foldl_reverse]
    refine Eq.trans ?_ (Nat.ofDigits_digits 10 n)
    rw [Nat.ofDigits_eq_foldr]
    congr 1
    funext d i
    rw [Nat.cast_id]
    omega
  have hread := @skipAtoi_digits rest _
    (fun d hd => Nat.digits_lt_base (show 1 < 10 by decide) (List.mem_reverse.mp hd)) hrest 0 (by rw [hvalue]; exact hn)
  rw [hvalue] at hread
  exact hread

/-- The first digit of a number is no flag. -/
theorem decimal_cons {n : Nat} (hn : n ≠ 0) :
    ∃ d ds, decimal n = Char.ofNat (48 + d) :: ds ∧ d ≠ 0 ∧ d < 10 := by
  obtain ⟨d, ds, hds⟩ := List.exists_cons_of_ne_nil
    (List.reverse_eq_nil_iff.not.mpr (Nat.digits_ne_nil_iff_ne_zero (b := 10).mpr hn))
  have hdigits : Nat.digits 10 n = ds.reverse ++ [d] := by
    rw [← List.reverse_cons, ← hds, List.reverse_reverse]
  refine ⟨d, ds.map fun d => Char.ofNat (48 + d), by rw [decimal, hds, List.map_cons], ?_, ?_⟩
  · have hlast := Nat.getLast_digit_ne_zero 10 hn
    simp only [hdigits, List.getLast_append_singleton] at hlast
    exact hlast
  · exact Nat.digits_lt_base (show 1 < 10 by decide) (by rw [hdigits]; simp)

/-- Neither a digit nor a flag, a `*` or a point. -/
def plain (c : Char) : Bool :=
  !isDigit c && c != '-' && c != '+' && c != ' ' && c != '#' && c != '*' && c != '.'

theorem plain_spec {c : Char} (h : plain c = true) :
    isDigit c = false ∧ (∀ f : Flag, c ≠ f.char) ∧ c ≠ '*' ∧ c ≠ '.' := by
  simp only [plain, Bool.and_eq_true, Bool.not_eq_true', bne_iff_ne] at h
  obtain ⟨⟨⟨⟨⟨⟨hdigit, hminus⟩, hplus⟩, hblank⟩, hhash⟩, hstar⟩, hpoint⟩ := h
  refine ⟨hdigit, fun f => ?_, hstar, hpoint⟩
  cases f with
  | minus => exact hminus
  | plus => exact hplus
  | blank => exact hblank
  | hash => exact hhash
  | zero =>
    rintro rfl
    exact absurd hdigit (by decide)

/-- The qualifier, the letter and what follows. -/
def tailOf (q : Option Qualifier) (v : Conv) (rest : List Char) : List Char :=
  (q.map Qualifier.char).toList ++ v.char :: rest

theorem plain_tailOf (q : Option Qualifier) (v : Conv) (rest : List Char) :
    plain (peek (tailOf q v rest)) = true := by
  cases q with
  | none =>
    show plain v.char = true
    cases v <;> decide
  | some q =>
    show plain q.char = true
    cases q <;> decide

theorem skipQualifier_tailOf (q : Option Qualifier) (v : Conv) (rest : List Char) :
    skipQualifier (tailOf q v rest) = v.char :: rest := by
  cases q with
  | none => cases v <;> rfl
  | some q => cases q <;> rfl

theorem peek_decimal {n : Nat} (hn : n ≠ 0) (rest : List Char) :
    isDigit (peek (decimal n ++ rest)) = true ∧ ∀ f : Flag, peek (decimal n ++ rest) ≠ f.char := by
  obtain ⟨d, ds, hds, hne, hd⟩ := decimal_cons hn
  have hpeek : peek (decimal n ++ rest) = Char.ofNat (48 + d) := by rw [hds]; rfl
  rw [hpeek]
  refine ⟨(isDigit_ofNat d hd).1, fun f hf => ?_⟩
  have hvalue : 48 + d = f.char.toNat := by rw [← hf, (isDigit_ofNat d hd).2]
  have hle : f.char.toNat ≤ 48 := by cases f <;> decide
  omega

theorem fieldWidth_eq {w : Nat} (hw : w < 2147483648) (hdigit : isDigit (peek rest) = false)
    (hstar : peek rest ≠ '*') (flags : Word) (o : Out) :
    fieldWidth args (decimal w ++ rest) flags o = (widthOf w, flags, rest, o) := by
  unfold fieldWidth widthOf
  by_cases h₀ : w = 0
  · subst h₀
    rw [show decimal 0 ++ rest = rest from rfl, hdigit, if_neg Bool.false_ne_true, if_neg hstar, if_pos rfl]
  · rw [(peek_decimal h₀ rest).1, if_pos rfl, skipAtoi_decimal hw hdigit, if_neg h₀]

theorem getPrecision_eq {p : Option (List Nat)} (hp : ∀ ds, p = some ds → (∀ d ∈ ds, d < 10) ∧ valueFrom 0 ds ≤ maxNumber)
    (hrest : plain (peek rest) = true) (o : Out) :
    getPrecision args (precisionChars p ++ rest) o = (precisionOf (p.map (valueFrom 0)), rest, o) := by
  obtain ⟨hdigit, -, hstar, hpoint⟩ := plain_spec hrest
  unfold getPrecision
  cases p with
  | none => exact if_neg hpoint
  | some ds =>
    have hpeek : peek (precisionChars (some ds) ++ rest) = '.' := rfl
    have htail : (precisionChars (some ds) ++ rest).tail = ds.map (fun d => Char.ofNat (48 + d)) ++ rest := rfl
    obtain ⟨hds, hfits⟩ := hp ds rfl
    rw [if_pos hpeek, htail]
    unfold precisionOf
    cases ds with
    | nil =>
      -- a bare point is a precision of 0
      rw [List.map_nil, List.nil_append]
      dsimp only
      rw [hdigit, if_neg Bool.false_ne_true, if_neg hstar]
      rfl
    | cons d ds =>
      have hfirst : isDigit (peek ((d :: ds).map (fun d => Char.ofNat (48 + d)) ++ rest)) = true :=
        (isDigit_ofNat d (hds d List.mem_cons_self)).1
      have hread := @skipAtoi_digits rest _ hds hdigit 0 (Nat.lt_of_le_of_lt hfits (by decide))
      dsimp only
      rw [hfirst, if_pos rfl]
      rw [Nat.cast_zero] at hread
      rw [hread]
      dsimp only
      rw [if_neg (by omega)]
      rfl

/-- The argument for a `*` behind the point is taken, and the `*` is still there. -/
theorem getPrecision_star (rest : List Char) (o : Out) :
    ∃ precision, getPrecision args ('.' :: '*' :: rest) o = (precision, '*' :: rest, o.take) := by
  have hpeek : peek ('.' :: '*' :: rest) = '.' := rfl
  have hstar : peek ('*' :: rest) = '*' := rfl
  have hdigit : isDigit '*' = false := by decide
  unfold getPrecision
  rw [if_pos hpeek, List.tail_cons]
  dsimp only
  rw [hstar, hdigit, if_neg Bool.false_ne_true, if_pos rfl]
  exact ⟨_, rfl⟩

/-! ## Characters and strings -/

theorem padString_eq (len width : Int) (str : List Char) :
    padString len width str = (min width len - 1, str ++ List.replicate (width - len).toNat ' ') := by
  rw [padString]
  by_cases hmore : len < width
  · rw [if_pos hmore, padString_eq len (width - 1)]
    have hcount : (width - len).toNat = (width - 1 - len).toNat + 1 := by omega
    rw [hcount, List.replicate_succ, List.append_assoc, List.singleton_append]
    exact congrArg (·, _) (by omega)
  · rw [if_neg hmore, show (width - len).toNat = 0 by omega, List.replicate_zero, List.append_nil]
    exact congrArg (·, _) (by omega)
termination_by (width - len).toNat

/-- A character is padded as a string of one. -/
theorem padChar_eq (width : Int) (str : List Char) : padChar width str = padString 1 width str := by
  rw [padChar, padString]
  by_cases hmore : 1 < width
  · rw [if_pos hmore, if_pos (by omega), padChar_eq (width - 1)]
  · rw [if_neg hmore, if_neg (by omega)]
termination_by width.toNat

theorem widthOf_sub (w len : Nat) : (widthOf w - len).toNat = w - len := by
  unfold widthOf
  split_ifs <;> omega

theorem putChar_eq (flags : Word) (w : Nat) (ch : Char) (str : List Char) :
    putChar flags (widthOf w) ch str = str ++ justify (has flags left) w [ch] := by
  have hfill : (widthOf w - 1).toNat = w - 1 := widthOf_sub w 1
  unfold putChar justify
  cases has flags left with
  | true => simp [padChar_eq, padString_eq, hfill]
  | false =>
    -- the first loop leaves nothing for the second
    have hdone : (min (widthOf w) 1 - 1 - 1).toNat = 0 := by omega
    simp [padChar_eq, padString_eq, hfill, hdone]

theorem putString_eq (flags : Word) (w : Nat) (p : Option Nat) (cs str : List Char) :
    putString flags (widthOf w) (precisionOf p) cs str = str ++ justify (has flags left) w (cut p cs) := by
  have hlen : ∃ len : Nat, (if precisionOf p < 0 then (cs.length : Int)
      else if cs.length > precisionOf p then precisionOf p else cs.length) = len ∧ cs.take len = cut p cs ∧
      (cut p cs).length = len := by
    cases p with
    | none => exact ⟨cs.length, rfl, List.take_length, rfl⟩
    | some n =>
      refine ⟨min n cs.length, ?_, ?_, List.length_take⟩
      · unfold precisionOf
        dsimp only
        split_ifs <;> omega
      · rw [cut, List.take_eq_take_iff]
        omega
  obtain ⟨len, hlen, htake, hcut⟩ := hlen
  have hfill := widthOf_sub w len
  unfold putString justify
  rw [hlen, hcut]
  cases has flags left with
  | true => simp [padString_eq, hfill, htake]
  | false =>
    have hdone : (min (widthOf w) len - 1 - len).toNat = 0 := by omega
    simp [padString_eq, hfill, hdone, htake]

/-! ## Conversions -/

theorem conversion_eq (s : Spec) (rest : List Char) (o : Out) :
    conversion args (s.conv.char :: rest) (flagsOf s.flags) (widthOf s.width) (precisionOf s.limit) o =
      (rest, s.run args o) := by
  unfold conversion Spec.run
  cases s.conv with
  | c => exact congrArg (rest, ·) (by rw [putChar_eq]; rfl)
  | s => exact congrArg (rest, ·) (by rw [putString_eq]; rfl)
  | p =>
    show (if widthOf s.width = -1 then
        (rest, putNumber args 16 (flagsOf s.flags ||| zeropad) 8 (precisionOf s.limit) o)
      else (rest, putNumber args 16 (flagsOf s.flags) (widthOf s.width) (precisionOf s.limit) o)) =
        (rest, if s.width = 0 then _ else _)
    by_cases h₀ : s.width = 0
    · have hwidth : widthOf s.width = -1 := if_pos h₀
      rw [if_pos hwidth, if_pos h₀]
      rfl
    · have hwidth : widthOf s.width ≠ -1 := by
        rw [widthOf, if_neg h₀]
        omega
      rw [if_neg hwidth, if_neg h₀]
      rfl
  | o => rfl
  | x => rfl
  | X => rfl
  | d => rfl
  | i => rfl
  | u => rfl
  | n => rfl
  | percent => rfl

/-- The argument for a `*` is taken, and the `*` is still there. -/
theorem fieldWidth_star (flags : Word) (rest : List Char) (o : Out) :
    ∃ width flags', fieldWidth args ('*' :: rest) flags o = (width, flags', '*' :: rest, o.take) := by
  have hpeek : peek ('*' :: rest) = '*' := rfl
  have hdigit : isDigit '*' = false := by decide
  unfold fieldWidth
  rw [hpeek, hdigit, if_neg Bool.false_ne_true, if_pos rfl]
  dsimp only
  split_ifs
  · exact ⟨_, _, rfl⟩
  · exact ⟨_, _, rfl⟩

/-- What is printed where a conversion ends with its `*`. -/
theorem conversion_star (flags : Word) (width precision : Int) (rest : List Char) (o : Out) :
    conversion args (skipQualifier ('*' :: rest)) flags width precision o = (rest, o.put ['%', '*']) := by
  show (rest, (o.put ['%']).put ['*']) = _
  unfold Out.put
  dsimp only
  rw [List.append_assoc]
  rfl

/-- No flag, and the width ends there. -/
theorem star_spec : isDigit '*' = false ∧ isDigit '.' = false ∧ '.' ≠ '*' ∧
    ∀ f : Flag, f.char ≠ '*' ∧ f.char ≠ '.' := by
  refine ⟨by decide, by decide, by decide, fun f => ?_⟩
  cases f <;> decide

/-- A conversion up to its `*`. -/
theorem vsprintfLoop_star {flags : List Flag} {width : Option Nat} (hp : (Piece.star flags width).Valid) (n : Nat)
    (rest : List Char) (o : Out) :
    vsprintfLoop args (n + 1) ((Piece.star flags width).chars ++ rest) o =
      vsprintfLoop args n rest ((Piece.star flags width).run args o) := by
  obtain ⟨-, hpoint, hne, hflag⟩ := star_spec
  have hpeek : peek ((Piece.star flags width).chars ++ rest) = '%' := rfl
  rw [vsprintfLoop, hpeek, if_neg (show '%' ≠ '\x00' by decide), if_neg (not_not.mpr rfl)]
  cases width with
  | none =>
    have htail : ((Piece.star flags none).chars ++ rest).tail = flags.map Flag.char ++ '*' :: rest := by
      simp [Piece.chars, starChars]
    obtain ⟨width, flags', hwidth⟩ := @fieldWidth_star args (flagsOf flags) rest o
    have hstart : ∀ f : Flag, peek ('*' :: rest) ≠ f.char := fun f => Ne.symm (hflag f).1
    rw [htail, skipFlags_eq flags hstart]
    show (match fieldWidth args ('*' :: rest) (flagsOf flags) o with
      | (width, flags, fmt, o) => match getPrecision args fmt o with
        | (precision, fmt, o) => match conversion args (skipQualifier fmt) flags width precision o with
          | (fmt, o) => vsprintfLoop args n fmt o) = _
    rw [hwidth]
    show (match conversion args (skipQualifier ('*' :: rest)) flags' width (-1) o.take with
      | (fmt, o) => vsprintfLoop args n fmt o) = _
    rw [conversion_star]
    rfl
  | some w =>
    have htail : ((Piece.star flags (some w)).chars ++ rest).tail =
        flags.map Flag.char ++ (decimal w ++ '.' :: '*' :: rest) := by
      simp [Piece.chars, starChars]
    have hstart : ∀ f : Flag, peek (decimal w ++ '.' :: '*' :: rest) ≠ f.char := by
      by_cases h₀ : w = 0
      · rw [h₀]
        exact fun f => Ne.symm (hflag f).2
      · exact (peek_decimal h₀ _).2
    have hend : isDigit (peek ('.' :: '*' :: rest)) = false := hpoint
    obtain ⟨precision, hprecision⟩ := @getPrecision_star args rest o
    rw [htail, skipFlags_eq flags hstart]
    dsimp only
    rw [fieldWidth_eq (Nat.lt_of_le_of_lt (hp w rfl) (by decide)) hend hne]
    dsimp only
    rw [hprecision]
    dsimp only
    rw [conversion_star]
    rfl

/-- A piece of the format is one round of the loop. -/
theorem vsprintfLoop_piece {p : Piece} (hp : p.Valid) (n : Nat) (rest : List Char) (o : Out) :
    vsprintfLoop args (n + 1) (p.chars ++ rest) o = vsprintfLoop args n rest (p.run args o) := by
  have hpercent : '%' ≠ '\x00' := by decide
  cases p with
  | text c =>
    have hpeek : peek ((Piece.text c).chars ++ rest) = c := rfl
    rw [vsprintfLoop, hpeek, if_neg hp.2, if_pos hp.1]
    rfl
  | star flags width => exact vsprintfLoop_star hp n rest o
  | spec s =>
    have hpeek : peek ((Piece.spec s).chars ++ rest) = '%' := rfl
    have htail : ((Piece.spec s).chars ++ rest).tail = s.flags.map Flag.char ++
        (decimal s.width ++ (precisionChars s.precision ++ tailOf s.qualifier s.conv rest)) := by
      simp [Piece.chars, tailOf]
    obtain ⟨hdigit, hflag, hstar, -⟩ := plain_spec (plain_tailOf s.qualifier s.conv rest)
    -- what ends the digits of the width
    have hend : isDigit (peek (precisionChars s.precision ++ tailOf s.qualifier s.conv rest)) = false ∧
        peek (precisionChars s.precision ++ tailOf s.qualifier s.conv rest) ≠ '*' ∧
        ∀ f : Flag, peek (precisionChars s.precision ++ tailOf s.qualifier s.conv rest) ≠ f.char := by
      cases s.precision with
      | none => exact ⟨hdigit, hstar, hflag⟩
      | some k =>
        refine ⟨show isDigit '.' = false by decide, show '.' ≠ '*' by decide, fun f => ?_⟩
        show '.' ≠ f.char
        cases f <;> decide
    have hstart : ∀ f : Flag, peek (decimal s.width ++ (precisionChars s.precision ++
        tailOf s.qualifier s.conv rest)) ≠ f.char := by
      by_cases h₀ : s.width = 0
      · rw [h₀]
        exact hend.2.2
      · exact (peek_decimal h₀ _).2
    rw [vsprintfLoop, hpeek, if_neg hpercent, if_neg (not_not.mpr rfl), htail, skipFlags_eq s.flags hstart]
    dsimp only
    rw [fieldWidth_eq (Nat.lt_of_le_of_lt hp.1 (by decide)) hend.1 hend.2.1]
    dsimp only
    rw [getPrecision_eq hp.2 (plain_tailOf s.qualifier s.conv rest)]
    dsimp only
    rw [skipQualifier_tailOf, show s.flags.foldl (fun w f => w ||| f.bit) 0 = flagsOf s.flags from rfl,
      show s.precision.map (valueFrom 0) = s.limit from rfl, conversion_eq]
    rfl

theorem vsprintfLoop_pieces {pieces : List Piece} (hv : ∀ p ∈ pieces, p.Valid) {n : Nat} (hn : pieces.length < n)
    (rest : List Char) (o : Out) :
    vsprintfLoop args n (pieces.flatMap Piece.chars ++ '\x00' :: rest) o = some (pieces.foldl (Piece.run args) o) := by
  induction pieces generalizing n o with
  | nil =>
    obtain ⟨n, rfl⟩ : ∃ k, n = k + 1 := ⟨n - 1, by omega⟩
    rfl
  | cons p pieces ih =>
    obtain ⟨n, rfl⟩ : ∃ k, n = k + 1 := ⟨n - 1, by omega⟩
    rw [List.flatMap_cons, List.append_assoc, vsprintfLoop_piece (hv p List.mem_cons_self), List.foldl_cons]
    exact ih (fun q hq => hv q (List.mem_cons_of_mem p hq)) (Nat.lt_of_succ_lt_succ hn) _

theorem chars_pos (p : Piece) : 1 ≤ p.chars.length := by
  cases p <;> exact Nat.succ_le_of_lt (Nat.succ_pos _)

/-- Every format of texts and conversions is read as it was written, whatever lies behind
its end: the pieces do what they stand for, one after the other. -/
theorem vsprintf_pieces (args : Args) {pieces : List Piece} (hv : ∀ p ∈ pieces, p.Valid) (rest : List Char) :
    vsprintf args (pieces.flatMap Piece.chars ++ '\x00' :: rest) =
      some (pieces.foldl (Piece.run args) ⟨[], 0, []⟩) := by
  refine vsprintfLoop_pieces hv ?_ rest _
  have hlength : pieces.length ≤ (pieces.flatMap Piece.chars).length := by
    rw [List.length_flatMap]
    clear hv
    induction pieces with
    | nil => exact Nat.le_refl 0
    | cons p pieces ih =>
      have hpos := chars_pos p
      rw [List.length_cons, List.map_cons, List.sum_cons]
      omega
  rw [List.length_append, List.length_cons]
  omega

/-- `%-4d|%*s%.2s%.05d%.*d`, of 42, 7, a string, 7 and 7, with the format of another call behind
it. -/
theorem vsprintf_pieces_line :
    vsprintf ⟨fun i => if i = 0 then 42 else 7, fun _ => ['a', 'b', 'c']⟩
        ['%', '-', '4', 'd', '|', '%', '*', 's', '%', '.', '2', 's', '%', '.', '0', '5', 'd', '%', '.', '*', 'd',
          '\x00', '%', 'd'] =
      some ⟨['4', '2', ' ', ' ', '|', '%', '*', 's', 'a', 'b', '0', '0', '0', '0', '7', '%', '*', 'd'], 5, []⟩ := by
  have hformat := @vsprintf_pieces ⟨fun i => if i = 0 then 42 else 7, fun _ => ['a', 'b', 'c']⟩
    [.spec ⟨[.minus], 4, none, none, .d⟩, .text '|', .star [] none, .text 's', .spec ⟨[], 0, some [2], none, .s⟩,
      .spec ⟨[], 0, some [0, 5], none, .d⟩, .star [] (some 0), .text 'd']
    (by simp [Piece.Valid, valueFrom, maxNumber]) ['%', 'd']
  have hchars : decimal 4 = ['4'] ∧ decimal 0 = [] := by decide +kernel
  simp only [List.flatMap_cons, List.flatMap_nil, Piece.chars, precisionChars, starChars, hchars] at hformat
  exact hformat.trans (by decide +kernel)

end Linux011.Kernel.Vsprintf
