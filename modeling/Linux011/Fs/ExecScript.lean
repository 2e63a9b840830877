import Linux011.Mm.Cow
import Mathlib.Data.List.TakeWhile

/-!
# The first line of a script — the `#!` section of `do_execve`

What `do_execve` takes out of its copy of the line: the name of the interpreter,
its last component, and the rest of the line.

* `parseScript_eq` — the loop over the name finds the last component;
* `parseScript_none` — no newline, or nothing but blanks in front of it.
-/

namespace Linux011.Fs.ExecScript

open Linux011.Mm (Byte)

def newline : Byte := 0x0a
def slash : Byte := 0x2f

/-- `(*cp == ' ') || (*cp == '\t')`. -/
def isBlank (c : Byte) : Bool := c == 0x20 || c == 0x09

/-- `buf` as a string: `strncpy(buf, bh->b_data+2, 1022)`. -/
def bufOf (bData : Nat → Byte) : List Byte :=
  ((List.range 1022).map fun i => bData (2 + i)).takeWhile (· != 0)

/-- `if (cp = strchr(buf, '\n')) *cp = '\0'`. -/
def cutLine (buf : List Byte) : Option (List Byte) :=
  if newline ∈ buf then some (buf.takeWhile (· != newline)) else none

/-- The loop over the name, with `i_name`, up to the first blank. -/
def scanName : List Byte → List Byte → List Byte × List Byte
  | [], iName => (iName, [])
  | c :: cp, iName =>
    if isBlank c then (iName, c :: cp)
    else scanName cp (if c = slash then cp else iName)

/-- What the line says; the strings end at the bytes that are set to 0. -/
structure Script where
  interp : List Byte
  iName  : List Byte
  iArg   : Option (List Byte)
  deriving DecidableEq, Repr

/-- The interpretation of the line. Nothing where there is no interpreter name. -/
def parseScript (bData : Nat → Byte) : Option Script :=
  match cutLine (bufOf bData) with
  | none => none
  | some line =>
    let cp := line.dropWhile isBlank
    if cp = [] then none
    else
      let (iName, rest) := scanName cp cp
      some {
        interp := cp.takeWhile (!isBlank ·)
        iName := iName.takeWhile (!isBlank ·)
        iArg := match rest with
          | [] => none
          | _ :: arg => some arg }

/-! ## What is found -/

/-- The part of a name behind the last slash. -/
def lastComponent (name : List Byte) : List Byte := (name.reverse.takeWhile (· != slash)).reverse

/-- The first word of a line. -/
def firstWord (line : List Byte) : List Byte := (line.dropWhile isBlank).takeWhile (!isBlank ·)

/-- What follows the blank behind the first word. -/
def restOf (line : List Byte) : Option (List Byte) :=
  match (line.dropWhile isBlank).dropWhile (!isBlank ·) with
  | [] => none
  | _ :: arg => some arg

theorem lastComponent_append (a b : List Byte) (h : slash ∈ b) :
    lastComponent (a ++ b) = lastComponent b := by
  unfold lastComponent
  rw [List.reverse_append, List.takeWhile_append]
  have hshort : (b.reverse.takeWhile (· != slash)).length ≠ b.reverse.length := by
    intro heq
    have hall := List.takeWhile_eq_self_iff.mp
      ((List.takeWhile_prefix (l := b.reverse) (· != slash)).eq_of_length heq)
    have := hall slash (List.mem_reverse.mpr h)
    simp at this
  rw [if_neg hshort]

theorem lastComponent_of_not_mem {a : List Byte} (h : slash ∉ a) : lastComponent a = a := by
  unfold lastComponent
  have hall : ∀ c ∈ a.reverse, (c != slash) = true := by
    intro c hc
    simp only [bne_iff_ne, ne_eq]
    rintro rfl
    exact h (List.mem_reverse.mp hc)
  rw [List.takeWhile_eq_self_iff.mpr hall, List.reverse_reverse]

theorem scanName_rest (cp iName : List Byte) :
    (scanName cp iName).2 = cp.dropWhile (!isBlank ·) := by
  induction cp generalizing iName with
  | nil => rfl
  | cons c cp ih =>
    rw [scanName]
    by_cases hc : isBlank c
    · simp [hc]
    · simp [hc, ih]

/-- What `i_name` points to: behind the last slash of the word, or where it did. -/
theorem scanName_name (cp iName : List Byte) :
    (scanName cp iName).1.takeWhile (!isBlank ·) =
      if slash ∈ cp.takeWhile (!isBlank ·) then lastComponent (cp.takeWhile (!isBlank ·))
      else iName.takeWhile (!isBlank ·) := by
  induction cp generalizing iName with
  | nil => simp [scanName]
  | cons c cp ih =>
    rw [scanName]
    by_cases hc : isBlank c
    · simp [hc]
    · have hcons : (c :: cp).takeWhile (!isBlank ·) = c :: cp.takeWhile (!isBlank ·) := by
        simp [hc]
      rw [if_neg hc, ih, hcons]
      by_cases hmem : slash ∈ cp.takeWhile (!isBlank ·)
      · have hlast := lastComponent_append [c] _ hmem
        rw [if_pos hmem, if_pos (List.mem_cons_of_mem c hmem)]
        exact hlast.symm
      · rw [if_neg hmem]
        by_cases hslash : c = slash
        · subst hslash
          rw [if_pos rfl, if_pos List.mem_cons_self]
          unfold lastComponent
          rw [List.reverse_cons, List.takeWhile_append_of_pos]
          · simp
          · intro c hc
            simp only [bne_iff_ne, ne_eq]
            rintro rfl
            exact hmem (List.mem_reverse.mp hc)
        · rw [if_neg hslash, if_neg]
          rw [List.mem_cons]
          rintro (h | h)
          · exact hslash h.symm
          · exact hmem h

/-- **The line is taken apart** into the first word, its last component and the rest. -/
theorem parseScript_eq {bData : Nat → Byte} {line : List Byte}
    (hline : cutLine (bufOf bData) = some line) (hname : firstWord line ≠ []) :
    parseScript bData =
      some ⟨firstWord line, lastComponent (firstWord line), restOf line⟩ := by
  have hcp : line.dropWhile isBlank ≠ [] := by
    intro h
    refine hname ?_
    unfold firstWord
    rw [h]
    rfl
  have hlast : (if slash ∈ firstWord line then lastComponent (firstWord line) else firstWord line) =
      lastComponent (firstWord line) := by
    split
    · rfl
    · next h => exact (lastComponent_of_not_mem h).symm
  unfold firstWord at hlast
  unfold parseScript
  rw [hline]
  dsimp only
  rw [if_neg hcp, scanName_rest, scanName_name, hlast]
  rfl

/-- **No interpreter** is found exactly where the copy of the line has no newline, or
no name in front of it. -/
theorem parseScript_none {bData : Nat → Byte} :
    parseScript bData = none ↔
      ∀ line, cutLine (bufOf bData) = some line → firstWord line = [] := by
  constructor
  · intro h line hline
    by_contra hname
    rw [parseScript_eq hline hname] at h
    cases h
  · intro h
    unfold parseScript
    split
    · rfl
    · next line hline =>
      have hword := h line hline
      by_cases hcp : line.dropWhile isBlank = []
      · simp [hcp]
      · -- the byte after the blanks is no blank
        have hhead := List.head_dropWhile_not (p := isBlank) hcp
        unfold firstWord at hword
        cases hrest : line.dropWhile isBlank with
        | nil => exact absurd hrest hcp
        | cons c cp =>
          rw [hrest] at hword
          simp only [hrest, List.head_cons] at hhead
          simp [hhead] at hword

end Linux011.Fs.ExecScript
