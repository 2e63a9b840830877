import Mathlib.Data.Nat.Digits.Lemmas

/-!
# `number`

The conversions of `vsprintf`. One variable `size` is what is left of the width,
and the loops that count it down leave it below 0, so that of the three of them
one at most pads.

* `pad_eq`, `zeros_eq`, `convert_eq` — the loops;
* `number_eq` — the parts of the output, in order;
* `number_prints` — with its length and the value of its digits.

`size` and `precision` do not overflow.
-/

namespace Linux011.Kernel.Vsprintf

abbrev Word := BitVec 32

/-! ## The code -/

def zeropad : Word := 1
def sign : Word := 2
def plus : Word := 4
def space : Word := 8
def left : Word := 16
def special : Word := 32
def small : Word := 64

/-- `type&flag`. -/
def has (type flag : Word) : Bool := type &&& flag != 0

def upperDigits : List Char :=
  ['0', '1', '2', '3', '4', '5', '6', '7', '8', '9', 'A', 'B', 'C', 'D', 'E', 'F', 'G', 'H', 'I', 'J', 'K', 'L',
    'M', 'N', 'O', 'P', 'Q', 'R', 'S', 'T', 'U', 'V', 'W', 'X', 'Y', 'Z']

def lowerDigits : List Char :=
  ['0', '1', '2', '3', '4', '5', '6', '7', '8', '9', 'a', 'b', 'c', 'd', 'e', 'f', 'g', 'h', 'i', 'j', 'k', 'l',
    'm', 'n', 'o', 'p', 'q', 'r', 's', 't', 'u', 'v', 'w', 'x', 'y', 'z']

def digitsOf (type : Word) : List Char := if has type small then lowerDigits else upperDigits

/-- `digits[i]`. -/
def digit (digits : List Char) (i : Nat) : Char := digits.getD i ' '

/-- `do_div`: the quotient and the remainder of `divl`, which takes `n` for unsigned. -/
def doDiv (n : Word) (base : Nat) : Word × Nat := (BitVec.ofNat 32 (n.toNat / base), n.toNat % base)

theorem doDiv_toNat (n : Word) (base : Nat) : (doDiv n base).1.toNat = n.toNat / base := by
  unfold doDiv
  rw [BitVec.toNat_ofNat]
  exact Nat.mod_eq_of_lt (Nat.lt_of_le_of_lt (Nat.div_le_self ..) n.isLt)

/-- `while (num!=0) tmp[i++]=digits[do_div(num,base)]`. -/
def convert (digits : List Char) (base : Nat) (hbase : 2 ≤ base) (num : Word) (tmp : List Char) : List Char :=
  if _h : num = 0 then tmp
  else convert digits base hbase (doDiv num base).1 (tmp ++ [digit digits (doDiv num base).2])
termination_by num.toNat
decreasing_by
  rw [doDiv_toNat]
  refine Nat.div_lt_self (Nat.pos_of_ne_zero fun h0 => _h ?_) hbase
  exact BitVec.eq_of_toNat_eq h0

/-- `while(size-->0) *str++ = c`: `size` after it, and the output. -/
def pad (c : Char) (size : Int) (str : List Char) : Int × List Char :=
  if size > 0 then pad c (size - 1) (str ++ [c]) else (size - 1, str)
termination_by size.toNat

/-- `while(i<precision--) *str++ = '0'`. -/
def zeros (i precision : Int) (str : List Char) : List Char :=
  if i < precision then zeros i (precision - 1) (str ++ ['0']) else str
termination_by (precision - i).toNat

/-- `while(i-->0) *str++ = tmp[i]`. -/
def putTmp (tmp : List Char) : Nat → List Char → List Char
  | 0, str => str
  | i + 1, str => putTmp tmp i (str ++ [tmp.getD i ' '])

/-- `sign`, and `num` without it. -/
def signAndNum (num type : Word) : Option Char × Word :=
  if has type sign ∧ num.toInt < 0 then (some '-', -num)
  else (if has type plus then some '+' else if has type space then some ' ' else none, num)

/-- The width that `SPECIAL` takes. -/
def specialSize (base : Int) (type : Word) : Int :=
  if has type special then if base = 16 then 2 else if base = 8 then 1 else 0 else 0

/-- What `SPECIAL` puts. -/
def putSpecial (base : Int) (type : Word) (digits str : List Char) : List Char :=
  if has type special then
    if base = 8 then str ++ ['0'] else if base = 16 then str ++ ['0'] ++ [digit digits 33] else str
  else str

/-- `tmp[]` up to `i`. -/
def tmpOf (digits : List Char) (base : Nat) (hbase : 2 ≤ base) (num : Word) : List Char :=
  if num = 0 then ['0'] else convert digits base hbase num []

/-- `if (type&LEFT) type &= ~ZEROPAD`. -/
def leftType (type : Word) : Word := if has type left then type &&& ~~~zeropad else type

/-- `number`: what is put from `str` on, or nothing for a base that is not one. The result of the code is
the address after it. -/
def number (num : Word) (base size precision : Int) (type : Word) : Option (List Char) :=
  let digits := digitsOf type
  let type := leftType type
  if h : base < 2 ∨ base > 36 then none
  else
    let c := if has type zeropad then '0' else ' '
    let (sign, num) := signAndNum num type
    let size := if sign.isSome then size - 1 else size
    let size := size - specialSize base type
    let tmp := tmpOf digits base.toNat (by omega) num
    let precision : Int := if (tmp.length : Int) > precision then tmp.length else precision
    let size := size - precision
    let (size, str) := if ¬ has type (zeropad + left) then pad ' ' size [] else (size, [])
    let str := str ++ sign.toList
    let str := putSpecial base type digits str
    let (size, str) := if ¬ has type left then pad c size str else (size, str)
    let str := zeros tmp.length precision str
    let str := putTmp tmp tmp.length str
    some (pad ' ' size str).2

/-! ## What is meant -/

def signOf (num type : Word) : List Char :=
  if has type sign ∧ num.toInt < 0 then ['-']
  else if has type plus then ['+']
  else if has type space then [' ']
  else []

def prefixOf (base : Int) (type : Word) : List Char :=
  if has type special = false then []
  else if base = 16 then ['0', if has type small then 'x' else 'X']
  else if base = 8 then ['0']
  else []

/-- Blanks behind, zeros after the prefix, or blanks before. -/
def layout (type : Word) (fill : Nat) (sign pre digits : List Char) : List Char :=
  if has type left then sign ++ pre ++ digits ++ List.replicate fill ' '
  else if has type zeropad then sign ++ pre ++ List.replicate fill '0' ++ digits
  else List.replicate fill ' ' ++ sign ++ pre ++ digits

/-- The number printed: without its sign if it has one. -/
def magnitude (num type : Word) : Nat := if has type sign then num.toInt.natAbs else num.toNat

/-- A digit read back. -/
def valueOf (type : Word) (c : Char) : Nat := (digitsOf type).idxOf c

/-- Digits read back, the first one first. -/
def readBack (base : Nat) (type : Word) (digits : List Char) : Nat :=
  Nat.ofDigits base (digits.reverse.map (valueOf type))

variable {digits str : List Char} {base size precision : Int} {num type : Word}

/-! ## The loops -/

/-- After the loop `size` is below 0. -/
theorem pad_eq (c : Char) (size : Int) (str : List Char) :
    pad c size str = (min size 0 - 1, str ++ List.replicate size.toNat c) := by
  induction size, str using pad.induct (c := c) with
  | case1 size str hpos ih =>
    rw [pad, if_pos hpos, ih, List.append_assoc]
    obtain ⟨n, rfl⟩ : ∃ n : Nat, size = n + 1 := ⟨(size - 1).toNat, by omega⟩
    have hnat : ((n : Int) + 1).toNat = n + 1 := by omega
    rw [hnat, show ((n : Int) + 1 - 1).toNat = n by omega, List.singleton_append, ← List.replicate_succ]
    congr 1
    omega
  | case2 size str hpos =>
    rw [pad, if_neg hpos, show size.toNat = 0 by omega, List.replicate_zero, List.append_nil]
    congr 1
    omega

theorem zeros_eq (i precision : Int) (str : List Char) :
    zeros i precision str = str ++ List.replicate (precision - i).toNat '0' := by
  induction precision, str using zeros.induct (i := i) with
  | case1 precision str hlt ih =>
    rw [zeros, if_pos hlt, ih, List.append_assoc, List.singleton_append, ← List.replicate_succ]
    congr 2
    omega
  | case2 precision str hlt =>
    rw [zeros, if_neg hlt, show (precision - i).toNat = 0 by omega, List.replicate_zero, List.append_nil]

theorem putTmp_eq (tmp : List Char) {i : Nat} (hi : i ≤ tmp.length) (str : List Char) :
    putTmp tmp i str = str ++ (tmp.take i).reverse := by
  induction i generalizing str with
  | zero => simp [putTmp]
  | succ i ih =>
    have hget : tmp.getD i ' ' = tmp[i] := by
      rw [List.getD_eq_getElem?_getD, List.getElem?_eq_getElem (by omega), Option.getD_some]
    rw [putTmp, ih (by omega), hget, List.take_succ_eq_append_getElem (by omega), List.reverse_append]
    simp

/-- The digits, the last one first. -/
theorem convert_eq {base : Nat} (hbase : 2 ≤ base) (num : Word) (tmp : List Char) :
    convert digits base hbase num tmp = tmp ++ (Nat.digits base num.toNat).map (digit digits) := by
  fun_induction convert digits base hbase num tmp with
  | case1 tmp => simp
  | case2 num tmp hne ih =>
    have hpos : 0 < num.toNat := Nat.pos_of_ne_zero fun h => hne (BitVec.eq_of_toNat_eq h)
    rw [ih, doDiv_toNat, List.append_assoc, Nat.digits_def' hbase hpos, List.map_cons]
    rfl

/-! ## The flags -/

theorem has_leftType {flag : Word} (h : ~~~zeropad &&& flag = flag) : has (leftType type) flag = has type flag := by
  unfold leftType
  split
  · unfold has
    rw [BitVec.and_assoc, h]
  · rfl

/-- Left justified there are no zeros. -/
theorem has_leftType_zeropad : has (leftType type) zeropad = (has type zeropad && !has type left) := by
  unfold leftType
  cases hleft : has type left with
  | true =>
    have hclear : type &&& ~~~zeropad &&& zeropad = 0#32 := by
      rw [BitVec.and_assoc, show ~~~zeropad &&& zeropad = 0#32 by decide, BitVec.and_zero]
    simp [has, hclear]
  | false => simp

theorem has_or (type : Word) {a b : Word} : has type (a ||| b) = (has type a || has type b) := by
  unfold has
  rw [BitVec.and_or_distrib_left, Bool.eq_iff_iff]
  simp only [bne_iff_ne, ne_eq, Bool.or_eq_true]
  rw [show (0 : Word) = 0#32 from rfl, BitVec.or_eq_zero_iff, not_and_or]

theorem has_padding : has (leftType type) (zeropad + left) = (has type zeropad || has type left) := by
  rw [show zeropad + left = zeropad ||| left by decide, has_or, has_leftType_zeropad, has_leftType (by decide)]
  cases has type zeropad <;> cases has type left <;> rfl

theorem signAndNum_leftType : signAndNum num (leftType type) = signAndNum num type := by
  unfold signAndNum
  rw [has_leftType (by decide), has_leftType (by decide), has_leftType (by decide)]

theorem signAndNum_sign : (signAndNum num type).1.toList = signOf num type := by
  unfold signAndNum signOf
  split_ifs <;> rfl

theorem specialSize_eq : specialSize base (leftType type) = (prefixOf base type).length := by
  unfold specialSize prefixOf
  rw [has_leftType (by decide)]
  cases has type special with
  | false => rfl
  | true => simp only [if_true, Bool.true_eq_false, if_false]; split_ifs <;> rfl

theorem putSpecial_eq : putSpecial base (leftType type) (digitsOf type) str = str ++ prefixOf base type := by
  unfold putSpecial prefixOf
  rw [has_leftType (by decide)]
  have hx : digit (digitsOf type) 33 = if has type small then 'x' else 'X' := by
    unfold digitsOf
    split_ifs <;> rfl
  cases has type special with
  | false => simp
  | true =>
    by_cases h8 : base = 8
    · simp [h8]
    · by_cases h16 : base = 16 <;> simp [h8, h16, hx]

/-! ## The conversion -/

/-- What the width is to hold: the sign, the prefix and the digits, at least `precision` of them. -/
def width (num type : Word) (base precision : Int) (tmp : List Char) : Int :=
  (signOf num type).length + (prefixOf base type).length + max precision tmp.length

/-- `tmp[]` for the number printed. -/
def tmpFor (num type : Word) (base : Int) (hbase : 2 ≤ base) : List Char :=
  tmpOf (digitsOf type) base.toNat (by omega) (signAndNum num type).2

/-- The parts of the output. -/
theorem number_eq (hlo : 2 ≤ base) (hhi : base ≤ 36) :
    number num base size precision type =
      some (layout type (size - width num type base precision (tmpFor num type base hlo)).toNat (signOf num type)
        (prefixOf base type) (List.replicate (precision - (tmpFor num type base hlo).length).toNat '0' ++
          (tmpFor num type base hlo).reverse)) := by
  have hsign : ((signAndNum num type).1.isSome = true ∧ (signOf num type).length = 1) ∨
      ((signAndNum num type).1.isSome = false ∧ (signOf num type).length = 0) := by
    rw [← signAndNum_sign]
    cases (signAndNum num type).1 <;> simp
  have hsize : (if (signAndNum num type).1.isSome then size - 1 else size) = size - (signOf num type).length := by
    rcases hsign with ⟨hs, hlen⟩ | ⟨hs, hlen⟩ <;> simp [hs, hlen]
  have htmp : tmpOf (digitsOf type) base.toNat (by omega) (signAndNum num type).2 = tmpFor num type base hlo := rfl
  unfold number
  rw [dif_neg (by omega)]
  dsimp only
  rw [signAndNum_leftType, specialSize_eq, hsize, htmp, has_padding, has_leftType_zeropad, has_leftType (by decide)]
  unfold width
  generalize tmpFor num type base hlo = tmp
  generalize hs : (signOf num type).length = sl
  generalize hp : (prefixOf base type).length = pl
  have hprec : (if (tmp.length : Int) > precision then (tmp.length : Int) else precision) = max precision tmp.length := by
    split <;> omega
  rw [hprec, zeros_eq, putTmp_eq tmp le_rfl, List.take_length, signAndNum_sign, putSpecial_eq]
  simp only [pad_eq]
  have hrest : (max precision tmp.length - tmp.length).toNat = (precision - tmp.length).toNat := by omega
  have hfill : size - sl - pl - max precision tmp.length = size - (sl + pl + max precision tmp.length) := by omega
  rw [hrest, hfill]
  generalize size - (sl + pl + max precision tmp.length) = fill
  unfold layout
  -- of the loops that count `size` down one at most has something left
  cases hleft : has type left with
  | true => simp
  | false =>
    have hneg : (min fill 0 - 1).toNat = 0 := by omega
    cases hzero : has type zeropad with
    | true => simp [hneg, -List.replicate_append_replicate]
    | false => simp [hneg]

theorem layout_length (fill : Nat) (sign pre digits : List Char) :
    (layout type fill sign pre digits).length = fill + sign.length + pre.length + digits.length := by
  unfold layout
  split_ifs <;> simp <;> omega

/-- The number without its sign, also where it is `-2^31`. -/
theorem signAndNum_num (num type : Word) : (signAndNum num type).2.toNat = magnitude num type := by
  have hnat : num.toNat < 2 ^ 32 := num.isLt
  have hint := BitVec.toInt_eq_toNat_cond num
  unfold signAndNum magnitude
  cases has type sign with
  | false => rw [if_neg fun h => Bool.false_ne_true h.1, if_neg Bool.false_ne_true]
  | true =>
    rw [if_pos rfl]
    by_cases hneg : num.toInt < 0
    · rw [if_pos ⟨rfl, hneg⟩, BitVec.toNat_neg]
      split at hint <;> omega
    · rw [if_neg fun h => hneg h.2]
      dsimp only
      split at hint <;> omega

theorem idxOf_digit {digits : List Char} (hnodup : digits.Nodup) {i : Nat} (hi : i < digits.length) :
    digits.idxOf (digit digits i) = i := by
  have hget : digit digits i = digits[i] := by
    unfold digit
    rw [List.getD_eq_getElem?_getD, List.getElem?_eq_getElem hi]
    rfl
  rw [hget]
  exact hnodup.idxOf_getElem i hi

/-- A digit below 36 is read back. -/
theorem valueOf_digit (type : Word) {i : Nat} (hi : i < 36) : valueOf type (digit (digitsOf type) i) = i := by
  unfold valueOf digitsOf
  split
  · exact idxOf_digit (List.Nodup.of_map Char.toNat (by decide)) hi
  · exact idxOf_digit (List.Nodup.of_map Char.toNat (by decide)) hi

/-- The digits of the number, the last one first. -/
theorem tmpFor_values (num type : Word) (hlo : 2 ≤ base) (hhi : base ≤ 36) :
    (tmpFor num type base hlo).map (valueOf type) =
      if magnitude num type = 0 then [0] else Nat.digits base.toNat (magnitude num type) := by
  unfold tmpFor tmpOf
  have hzero : (signAndNum num type).2 = 0 ↔ magnitude num type = 0 := by
    rw [← signAndNum_num]
    exact ⟨fun h => by rw [h]; rfl, fun h => BitVec.eq_of_toNat_eq h⟩
  by_cases h : magnitude num type = 0
  · rw [if_pos (hzero.mpr h), if_pos h]
    have h0 := valueOf_digit type (show 0 < 36 by decide)
    have hdigit : digit (digitsOf type) 0 = '0' := by
      unfold digitsOf
      split <;> rfl
    rw [List.map_singleton, ← hdigit, h0]
  · rw [if_neg (hzero.not.mpr h), if_neg h, convert_eq, signAndNum_num, List.nil_append, List.map_map]
    have hlt : ∀ i ∈ Nat.digits base.toNat (magnitude num type), i < 36 := fun i hi => by
      have hbase := Nat.digits_lt_base (show 1 < base.toNat by omega) hi
      omega
    calc (Nat.digits base.toNat (magnitude num type)).map (valueOf type ∘ digit (digitsOf type))
        = (Nat.digits base.toNat (magnitude num type)).map id :=
          List.map_congr_left fun i hi => valueOf_digit type (hlt i hi)
      _ = Nat.digits base.toNat (magnitude num type) := List.map_id _

/-- A number of 32 bits has no more than 32 digits. -/
theorem tmpFor_length (num type : Word) (hlo : 2 ≤ base) (hhi : base ≤ 36) :
    1 ≤ (tmpFor num type base hlo).length ∧ (tmpFor num type base hlo).length ≤ 32 := by
  have hlen := congrArg List.length (tmpFor_values num type hlo hhi)
  rw [List.length_map] at hlen
  rw [hlen]
  split_ifs with hzero
  · exact ⟨le_rfl, by decide⟩
  · have hbound : magnitude num type < 2 ^ 32 := signAndNum_num num type ▸ (signAndNum num type).2.isLt
    refine ⟨List.length_pos_iff.mpr (Nat.digits_ne_nil_iff_ne_zero.mpr hzero), ?_⟩
    rw [Nat.digits_length_le_iff (by omega)]
    exact hbound.trans_le (Nat.pow_le_pow_left (by omega) 32)

theorem readBack_tmpFor (hlo : 2 ≤ base) (hhi : base ≤ 36) :
    readBack base.toNat type (tmpFor num type base hlo).reverse = magnitude num type := by
  unfold readBack
  rw [List.reverse_reverse, tmpFor_values num type hlo hhi]
  split_ifs with hzero
  · rw [hzero]
    rfl
  · exact Nat.ofDigits_digits _ _

/-- **`number` prints what it was given**: sign, prefix, zeros and digits in their order, as wide as
asked for, and the digits are those of the number; so what is printed can be read back. -/
theorem number_prints (num type : Word) (size precision : Int) (hlo : 2 ≤ base) (hhi : base ≤ 36) :
    let tmp := tmpFor num type base hlo
    let out := layout type (size - width num type base precision tmp).toNat (signOf num type) (prefixOf base type)
      (List.replicate (precision - tmp.length).toNat '0' ++ tmp.reverse)
    number num base size precision type = some out ∧
      (out.length : Int) = max size (width num type base precision tmp) ∧
      readBack base.toNat type tmp.reverse = magnitude num type ∧
      (∀ d ∈ tmp, (valueOf type d : Int) < base) ∧ 1 ≤ tmp.length ∧ tmp.length ≤ 32 := by
  have hlen := tmpFor_length num type hlo hhi
  refine ⟨number_eq hlo hhi, ?_, readBack_tmpFor hlo hhi, fun d hd => ?_, hlen.1, hlen.2⟩
  · rw [layout_length, List.length_append, List.length_replicate, List.length_reverse]
    unfold width
    omega
  · have hvalue : valueOf type d ∈ (tmpFor num type base hlo).map (valueOf type) := List.mem_map_of_mem hd
    rw [tmpFor_values num type hlo hhi] at hvalue
    split_ifs at hvalue with hzero
    · rw [List.mem_singleton.mp hvalue]
      omega
    · have hbase := Nat.digits_lt_base (show 1 < base.toNat by omega) hvalue
      omega

/-- `%#08x` of -31 as a signed number: `-0x0001f`. -/
theorem number_prints_hex :
    number (-31) 16 8 (-1) (zeropad ||| sign ||| special ||| small) = some ['-', '0', 'x', '0', '0', '0', '1', 'f'] ∧
      readBack 16 (zeropad ||| sign ||| special ||| small) ['1', 'f'] = 31 := by
  have htmp : tmpFor (-31) (zeropad ||| sign ||| special ||| small) 16 (by decide) = ['f', '1'] := by
    decide +kernel
  obtain ⟨hout, -, hread, -⟩ :=
    number_prints (-31) (zeropad ||| sign ||| special ||| small) 8 (-1) (show (2 : Int) ≤ 16 by decide) (by decide)
  rw [htmp] at hout hread
  exact ⟨hout, hread⟩

end Linux011.Kernel.Vsprintf
