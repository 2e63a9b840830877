import Linux011.Lib.ByteInstr

/-!
# Copying a string

`strcpy` and `strcat` copy up to the terminator. `strncpy` and `strncat` count
down before each character; after the terminator `strncpy` fills up what is left
of the count, and `strncat` goes on to the label `2`, where it stores a
terminator, although it has just copied one.

* `copyLoop_spec`, `copyCount_all`, `copyCount_end` — the two loops;
* `copies_exact` — what the four functions store: `strncat` one byte too much
  for a string that is shorter than the count.
-/

namespace Linux011.Include

open Linux011.Lib.ByteInstr

/-! ## The code; each function returns `dest` -/

/-- `lodsb; stosb; testb %%al,%%al`. -/
def move (c : Cpu) : Cpu := c.lodsb.stosb.testAl

/-- `1` of `strcpy` and `strcat`. -/
def copyLoop : Nat → Cpu → Option Cpu
  | 0, _ => none
  | fuel + 1, c =>
    let c := move c
    if c.zf then some c else copyLoop fuel c

/-- `1` of `strncpy` and `strncat`; whether it has left with `js` comes first. -/
def copyCount : Nat → Cpu → Option (Bool × Cpu)
  | 0, _ => none
  | fuel + 1, c =>
    let c := c.decEcx
    if c.sf then some (true, c)
    else
      let c := move c
      if c.zf then some (false, c) else copyCount fuel c

/-- `"S" (src), "D" (dest)`. -/
def strcpy (fuel dest src : Nat) (c : Cpu) : Option Cpu := copyLoop fuel { c with esi := src, edi := dest }

/-- `"S" (src), "D" (dest), "c" (count)`. -/
def strncpy (fuel dest src count : Nat) (c : Cpu) : Option Cpu :=
  (copyCount fuel { c with esi := src, edi := dest, ecx := count }).map fun r =>
    if r.1 then r.2 else r.2.repStosb

/-- `repne; scasb; decl %1`, with `"S" (src), "D" (dest), "a" (0), "c" (0xffffffff)`. -/
def oldEnd (dest src : Nat) (c : Cpu) : Cpu :=
  { c with esi := src, edi := dest, eax := 0, ecx := 2 ^ 32 - 1 }.repneScasb.decEdi

def strcat (fuel dest src : Nat) (c : Cpu) : Option Cpu := copyLoop fuel (oldEnd dest src c)

/-- At `2`: `xorl %2,%2; stosb`. -/
def strncat (fuel dest src count : Nat) (c : Cpu) : Option Cpu :=
  (copyCount fuel { oldEnd dest src c with ecx := count }).map fun r => ({ r.2 with eax := 0 }.flags32 0).stosb

variable {c c' : Cpu} {fuel dest src count size n p q m : Nat} {l o : List Byte}

/-! ## The loops -/

/-- Two buffers do not overlap. -/
def Apart (p n q m : Nat) : Prop := p + n ≤ q ∨ q + m ≤ p

theorem Apart.sub (h : Apart p n q m) {q' m' : Nat} (hlo : q ≤ q') (hhi : q' + m' ≤ q + m) : Apart p n q' m' := by
  unfold Apart at h ⊢
  omega

theorem move_zf (c : Cpu) : (move c).zf = (c.mem c.esi == 0) := congrArg (· == 0) (lodsb_al c)

theorem move_al (c : Cpu) : (move c).al = c.mem c.esi := lodsb_al c

theorem move_edi (c : Cpu) : (move c).edi = inc c.edi := rfl

theorem move_stored (c : Cpu) : Stored c.edi [c.mem c.esi] c (move c) := by
  refine .single ?_ rfl
  show Function.update c.mem c.edi c.lodsb.al = _
  rw [lodsb_al]

/-- A character has been copied, and the rest of the string is where it was. -/
structure Moved (b : Byte) (l : List Byte) (n : Nat) (c c₁ : Cpu) : Prop where
  stored : Stored c.edi [b] c c₁
  zf     : c₁.zf = false
  ecx    : c₁.ecx = c.ecx
  edi    : c.edi + 1 < 2 ^ 32 → c₁.edi = c.edi + 1
  rest   : Str c₁.mem c₁.esi l
  apart  : Apart c₁.esi (l.length + 1) (c.edi + 1) n

theorem move_char {b : Byte} (hs : Str c.mem c.esi (b :: l)) (hapart : Apart c.esi ((b :: l).length + 1) c.edi (n + 1)) :
    Moved b l n c (move c) := by
  have hpos := hs.pos
  have htop := hs.tail.top
  have hesi : (move c).esi = c.esi + 1 := inc_eq (by omega)
  rw [Apart, List.length_cons] at hapart
  have hstored := move_stored c
  rw [hs.head] at hstored
  refine ⟨hstored, ?_, rfl, fun h => (move_edi c).trans (inc_eq h), ?_, ?_⟩
  · rw [move_zf, hs.head]
    exact beq_eq_false_iff_ne.mpr hs.head_ne
  · rw [hesi]
    refine hs.tail.congr fun i hi => ?_
    show Function.update c.mem c.edi c.lodsb.al _ = _
    exact Function.update_of_ne (by omega) ..
  · rw [Apart, hesi]
    omega

/-- The terminator has been. -/
theorem move_nul (hs : Str c.mem c.esi []) : Stored c.edi [0] c (move c) ∧ (move c).zf = true ∧ (move c).al = 0 := by
  have hstored := move_stored c
  rw [hs.nil_char] at hstored
  refine ⟨hstored, ?_, (move_al c).trans hs.nil_char⟩
  rw [move_zf, hs.nil_char]
  rfl

theorem copyLoop_spec (hesi : c.esi = q) (hedi : c.edi = p) (hs : Str c.mem q l) (htop : p + l.length < 2 ^ 32)
    (hapart : Apart q (l.length + 1) p (l.length + 1)) (hfuel : l.length < fuel) :
    ∃ c', copyLoop fuel c = some c' ∧ Stored p (l ++ [0]) c c' := by
  induction l generalizing c p q fuel with
  | nil =>
    subst hesi hedi
    obtain ⟨fuel, rfl⟩ := Nat.exists_eq_add_of_lt hfuel
    obtain ⟨hstored, hzf, -⟩ := move_nul hs
    exact ⟨move c, if_pos hzf, hstored⟩
  | cons b l ih =>
    subst hesi hedi
    obtain ⟨fuel, rfl⟩ := Nat.exists_eq_add_of_lt hfuel
    have M := move_char hs hapart
    have hstep : copyLoop ((b :: l).length + fuel + 1) c = copyLoop ((b :: l).length + fuel) (move c) :=
      if_neg (by simp [M.zf])
    rw [List.length_cons] at htop
    have hedi := M.edi (by omega)
    obtain ⟨c', hrest, hstored⟩ := ih (c := move c) rfl hedi M.rest (by omega) M.apart
      (show l.length < (b :: l).length + fuel from Nat.lt_add_right fuel (Nat.lt_succ_self l.length))
    exact ⟨c', hstep.trans hrest, M.stored.cons hstored⟩

theorem decEcx_sf (c : Cpu) : c.decEcx.sf = decide (2 ^ 31 ≤ dec c.ecx) := rfl

theorem decEcx_zero (h : c.ecx = 0) : c.decEcx.sf = true := by
  rw [decEcx_sf, h]
  unfold dec
  rfl

theorem decEcx_succ (h : c.ecx = n + 1) (hn : n < 2 ^ 31) : c.decEcx.sf = false ∧ c.decEcx.ecx = n := by
  have hdec : dec c.ecx = n := by
    rw [h]
    exact dec_eq (Nat.succ_pos n)
  rw [decEcx_sf, decEcx_ecx, hdec]
  exact ⟨decide_eq_false (Nat.not_le.mpr hn), rfl⟩

theorem copyCount_stop (hecx : c.ecx = 0) (hfuel : 0 < fuel) : copyCount fuel c = some (true, c.decEcx) := by
  obtain ⟨fuel, rfl⟩ := Nat.exists_eq_add_of_lt hfuel
  exact if_pos (decEcx_zero hecx)

theorem copyCount_step (hsf : c.decEcx.sf = false) (hzf : (move c.decEcx).zf = false) :
    copyCount (fuel + 1) c = copyCount fuel (move c.decEcx) := by
  rw [copyCount, if_neg (by simp [hsf])]
  exact if_neg (by simp [hzf])

/-- The count is used up first. -/
theorem copyCount_all (hesi : c.esi = q) (hedi : c.edi = p) (hecx : c.ecx = m) (hs : Str c.mem q l) (hle : m ≤ l.length)
    (hcount : m < 2 ^ 31) (htop : p + m ≤ 2 ^ 32) (hapart : Apart q (l.length + 1) p m) (hfuel : m < fuel) :
    ∃ c', copyCount fuel c = some (true, c') ∧ Stored p (l.take m) c c' ∧ (p + m < 2 ^ 32 → c'.edi = p + m) := by
  induction m generalizing c l p q fuel with
  | zero => exact ⟨c.decEcx, copyCount_stop hecx hfuel, .nil rfl rfl, fun _ => hedi⟩
  | succ m ih =>
    subst hesi hedi
    obtain ⟨fuel, rfl⟩ := Nat.exists_eq_add_of_lt hfuel
    cases l with
    | nil => exact absurd hle (Nat.not_succ_le_zero m)
    | cons b l =>
      obtain ⟨hsf, hleft⟩ := decEcx_succ hecx (by omega)
      have M := move_char (c := c.decEcx) hs hapart
      have hstep : copyCount (m + 1 + fuel + 1) c = copyCount (m + 1 + fuel) (move c.decEcx) :=
        copyCount_step hsf M.zf
      have hfirst := M.stored.of_eq (c := c) rfl rfl
      have hecx' : (move c.decEcx).ecx = m := M.ecx.trans hleft
      rcases Nat.eq_zero_or_pos m with rfl | hpos
      · -- The last byte of the buffer may be the last one there is.
        exact ⟨_, hstep.trans (copyCount_stop hecx' (by omega)), hfirst.of_eq_right rfl rfl, fun h => M.edi h⟩
      · have hedi : (move c.decEcx).edi = c.edi + 1 := M.edi (show c.edi + 1 < 2 ^ 32 by omega)
        obtain ⟨c', hrest, hstored, hend⟩ := ih (c := move c.decEcx) rfl hedi hecx' M.rest
          (Nat.le_of_succ_le_succ hle) (by omega) (by omega) M.apart (show m < m + 1 + fuel by omega)
        exact ⟨c', hstep.trans hrest, hfirst.cons hstored, fun h => (hend (by omega)).trans (by omega)⟩

/-- The terminator is copied first: `ecx` is what is left of the count. -/
theorem copyCount_end (hesi : c.esi = q) (hedi : c.edi = p) (hecx : c.ecx = m) (hs : Str c.mem q l) (hlt : l.length < m)
    (hcount : m < 2 ^ 31) (htop : p + l.length < 2 ^ 32) (hapart : Apart q (l.length + 1) p (l.length + 1))
    (hfuel : l.length < fuel) :
    ∃ c', copyCount fuel c = some (false, c') ∧ Stored p (l ++ [0]) c c' ∧ c'.ecx = m - (l.length + 1) ∧
      c'.al = 0 ∧ c'.edi = inc (p + l.length) := by
  induction l generalizing c p q m fuel with
  | nil =>
    subst hesi hedi
    obtain ⟨fuel, rfl⟩ := Nat.exists_eq_add_of_lt hfuel
    obtain ⟨m, rfl⟩ := Nat.exists_eq_add_of_lt hlt
    obtain ⟨hsf, hleft⟩ := decEcx_succ hecx (by omega)
    obtain ⟨hstored, hzf, hal⟩ := move_nul (c := c.decEcx) hs
    refine ⟨move c.decEcx, ?_, hstored.of_eq rfl rfl, hleft, hal, rfl⟩
    rw [copyCount, if_neg (by simp [hsf])]
    exact if_pos hzf
  | cons b l ih =>
    subst hesi hedi
    obtain ⟨fuel, rfl⟩ := Nat.exists_eq_add_of_lt hfuel
    obtain ⟨m, rfl⟩ := Nat.exists_eq_add_of_lt hlt
    obtain ⟨hsf, hleft⟩ := decEcx_succ hecx (by omega)
    have M := move_char (c := c.decEcx) hs hapart
    have hstep : copyCount ((b :: l).length + fuel + 1) c = copyCount ((b :: l).length + fuel) (move c.decEcx) :=
      copyCount_step hsf M.zf
    rw [List.length_cons] at htop hleft hcount
    have hecx' : (move c.decEcx).ecx = l.length + 1 + m := M.ecx.trans hleft
    have hedi : (move c.decEcx).edi = c.edi + 1 := M.edi (show c.edi + 1 < 2 ^ 32 by omega)
    obtain ⟨c', hrest, hstored, hcx, hal, hend⟩ := ih (c := move c.decEcx) rfl hedi hecx' M.rest (by omega)
      (by omega) (by omega) M.apart
      (show l.length < (b :: l).length + fuel from Nat.lt_add_right fuel (Nat.lt_succ_self l.length))
    refine ⟨c', hstep.trans hrest, (M.stored.of_eq (c := c) rfl rfl).cons hstored, ?_, hal, ?_⟩
    · rw [hcx, List.length_cons]
      omega
    · rw [hend, List.length_cons, Nat.add_assoc, Nat.add_comm 1]

/-! ## The functions -/

/-- It returns, with exactly these bytes written from `p` on. -/
def Copies (r : Option Cpu) (p : Nat) (bytes : List Byte) (c : Cpu) : Prop := ∃ c', r = some c' ∧ Stored p bytes c c'

theorem strcpy_copies (hs : Str c.mem src l) (htop : dest + l.length < 2 ^ 32)
    (hapart : Apart src (l.length + 1) dest (l.length + 1)) (hfuel : l.length < fuel) :
    Copies (strcpy fuel dest src c) dest (l ++ [0]) c := by
  obtain ⟨c', hloop, hstored⟩ := copyLoop_spec (c := { c with esi := src, edi := dest }) rfl rfl hs htop hapart hfuel
  exact ⟨c', hloop, hstored.of_eq rfl rfl⟩

/-- What `rep stosb` fills up behind the terminator. -/
theorem repStosb_rest (hal : c.al = 0) (hedi : c.edi = inc p) (htop : p + (c.ecx + 1) ≤ 2 ^ 32) :
    Stored (p + 1) (List.replicate c.ecx 0) c c.repStosb := by
  unfold Cpu.repStosb
  rcases Nat.eq_zero_or_pos c.ecx with hzero | hpos
  · rw [hzero]
    exact .nil rfl rfl
  · rw [inc_eq (by omega)] at hedi
    have hfill := stos_spec (c := c) (n := c.ecx) (by omega)
    rwa [hal, hedi] at hfill

theorem strncpy_copies (hs : Str c.mem src l) (hcount : count < 2 ^ 31) (htop : dest + count ≤ 2 ^ 32)
    (hapart : Apart src (l.length + 1) dest count) (hfuel : l.length < fuel) :
    Copies (strncpy fuel dest src count c) dest (l.take count ++ List.replicate (count - l.length) 0) c := by
  unfold strncpy
  rcases Nat.lt_or_ge l.length count with hlt | hle
  · obtain ⟨c', hloop, hstored, hecx, hal, hedi⟩ := copyCount_end (p := dest) (q := src) (m := count)
      (c := { c with esi := src, edi := dest, ecx := count }) rfl rfl rfl hs hlt hcount (by omega) (hapart.sub (Nat.le_refl _) (by omega)) hfuel
    have hfill := repStosb_rest hal hedi (by omega)
    have hleft : count - l.length = c'.ecx + 1 := by omega
    have hfirst : Stored dest (l ++ [0]) c c' := hstored.of_eq rfl rfl
    have hall : Stored dest ((l ++ [0]) ++ List.replicate c'.ecx 0) c c'.repStosb := hfirst.append (by
      rw [List.length_append, List.length_singleton, ← Nat.add_assoc]
      exact hfill)
    rw [hloop, List.take_of_length_le (Nat.le_of_lt hlt), hleft, List.replicate_succ, List.append_cons]
    exact ⟨_, rfl, hall⟩
  · obtain ⟨c', hloop, hstored, -⟩ := copyCount_all (c := { c with esi := src, edi := dest, ecx := count }) rfl rfl rfl hs
      hle hcount htop hapart (Nat.lt_of_le_of_lt hle hfuel)
    rw [hloop, Nat.sub_eq_zero_of_le hle, List.replicate_zero, List.append_nil]
    exact ⟨c', rfl, hstored.of_eq rfl rfl⟩

/-- `edi` is at the old terminator. -/
structure AtEnd (dest src : Nat) (o : List Byte) (c c₁ : Cpu) : Prop where
  mem    : c₁.mem = c.mem
  writes : c₁.writes = c.writes
  esi    : c₁.esi = src
  edi    : c₁.edi = dest + o.length

theorem oldEnd_spec (ho : Str c.mem dest o) (src : Nat) : AtEnd dest src o c (oldEnd dest src c) := by
  obtain ⟨S, -, hedi, -⟩ := scas_end (c := { c with esi := src, edi := dest, eax := 0, ecx := 2 ^ 32 - 1 }) ho rfl rfl
  refine ⟨S.mem, S.writes, S.esi, ?_⟩
  show dec _ = _
  rw [hedi, dec_inc]

theorem strcat_copies (hs : Str c.mem src l) (ho : Str c.mem dest o) (htop : dest + o.length + l.length < 2 ^ 32)
    (hapart : Apart src (l.length + 1) (dest + o.length) (l.length + 1)) (hfuel : l.length < fuel) :
    Copies (strcat fuel dest src c) (dest + o.length) (l ++ [0]) c := by
  have E := oldEnd_spec ho src
  obtain ⟨c', hloop, hstored⟩ := copyLoop_spec E.esi E.edi (by rw [E.mem]; exact hs) htop hapart hfuel
  exact ⟨c', hloop, hstored.of_eq E.mem E.writes⟩

/-- The count is used up: the terminator comes from the label `2`. -/
theorem strncat_all (hs : Str c.mem src l) (ho : Str c.mem dest o) (hle : count ≤ l.length) (hcount : count < 2 ^ 31)
    (htop : dest + o.length + count < 2 ^ 32) (hapart : Apart src (l.length + 1) (dest + o.length) count)
    (hfuel : l.length < fuel) : Copies (strncat fuel dest src count c) (dest + o.length) (l.take count ++ [0]) c := by
  have E := oldEnd_spec ho src
  obtain ⟨c', hloop, hstored, hend⟩ := copyCount_all (c := { oldEnd dest src c with ecx := count }) E.esi E.edi rfl
    (show Str (oldEnd dest src c).mem src l by rw [E.mem]; exact hs) hle hcount (Nat.le_of_lt htop) hapart
    (Nat.lt_of_le_of_lt hle hfuel)
  have hfirst : Stored (dest + o.length) (l.take count) c c' := hstored.of_eq E.mem E.writes
  have hedi : dest + o.length + (l.take count).length = c'.edi := by
    rw [List.length_take, Nat.min_eq_left hle, hend htop]
  unfold strncat
  rw [hloop]
  exact ⟨_, rfl, hfirst.append (.single (by rw [hedi]; rfl) (by rw [hedi]; rfl))⟩

/-- The string has been copied with its terminator, and another one is stored behind that. -/
theorem strncat_end (hs : Str c.mem src l) (ho : Str c.mem dest o) (hlt : l.length < count) (hcount : count < 2 ^ 31)
    (htop : dest + o.length + l.length < 2 ^ 32) (hapart : Apart src (l.length + 1) (dest + o.length) (l.length + 1))
    (hfuel : l.length < fuel) : ∃ c', strncat fuel dest src count c = some c' ∧
      c'.writes = c.writes ++ (List.range' (dest + o.length) (l.length + 1) ++ [inc (dest + o.length + l.length)]) := by
  have E := oldEnd_spec ho src
  obtain ⟨c', hloop, hstored, -, -, hedi⟩ := copyCount_end (c := { oldEnd dest src c with ecx := count }) E.esi E.edi rfl
    (show Str (oldEnd dest src c).mem src l by rw [E.mem]; exact hs) hlt hcount htop hapart hfuel
  have hfirst : Stored (dest + o.length) (l ++ [0]) c c' := hstored.of_eq E.mem E.writes
  unfold strncat
  rw [hloop]
  refine ⟨_, rfl, ?_⟩
  show c'.writes ++ [c'.edi] = _
  rw [hfirst.writes, hedi, List.length_append, List.length_singleton, List.append_assoc]

theorem strncat_iff (hs : Str c.mem src l) (ho : Str c.mem dest o) (hcount : count < 2 ^ 31)
    (htop : dest + o.length + (min l.length count + 1) ≤ 2 ^ 32)
    (hapart : Apart src (l.length + 1) (dest + o.length) (min l.length count + 1)) (hfuel : l.length < fuel) :
    Copies (strncat fuel dest src count c) (dest + o.length) (l.take count ++ [0]) c ↔ count ≤ l.length := by
  constructor
  · intro hcopies
    by_contra hlong
    obtain ⟨c', hrun, hwrites⟩ := strncat_end hs ho (Nat.not_le.mp hlong) hcount (by omega)
      (hapart.sub (Nat.le_refl _) (by omega)) hfuel
    obtain ⟨c₁, hrun₁, S⟩ := hcopies
    obtain rfl : c' = c₁ := Option.some.inj (hrun.symm.trans hrun₁)
    have hcountBytes := congrArg List.length (List.append_cancel_left (hwrites.symm.trans S.writes))
    simp only [List.length_append, List.length_range', List.length_take, List.length_singleton] at hcountBytes
    omega
  · intro hle
    exact strncat_all hs ho hle hcount (by omega) (hapart.sub (Nat.le_refl _) (by omega)) hfuel

/-- In a buffer of `size` bytes that has room for it, `strcpy`, `strncpy` and `strcat` write exactly their
result. `strncat` does if and only if the count is not more than the length of `src`. -/
theorem copies_exact (hs : Str c.mem src l) (hcount : count < 2 ^ 31) (htop : dest + size ≤ 2 ^ 32)
    (hapart : Apart src (l.length + 1) dest size) (hfuel : l.length < fuel) :
    (l.length + 1 ≤ size → Copies (strcpy fuel dest src c) dest (l ++ [0]) c) ∧
      (count ≤ size →
        Copies (strncpy fuel dest src count c) dest (l.take count ++ List.replicate (count - l.length) 0) c) ∧
      (∀ o, Str c.mem dest o → o.length + (l.length + 1) ≤ size →
        Copies (strcat fuel dest src c) (dest + o.length) (l ++ [0]) c) ∧
      ∀ o, Str c.mem dest o → o.length + (min l.length count + 1) ≤ size →
        (Copies (strncat fuel dest src count c) (dest + o.length) (l.take count ++ [0]) c ↔ count ≤ l.length) := by
  refine ⟨fun hroom => ?_, fun hroom => ?_, fun o ho hroom => ?_, fun o ho hroom => ?_⟩
  · exact strcpy_copies hs (by omega) (hapart.sub (Nat.le_refl _) (by omega)) hfuel
  · exact strncpy_copies hs hcount (by omega) (hapart.sub (Nat.le_refl _) (by omega)) hfuel
  · exact strcat_copies hs ho (by omega) (hapart.sub (Nat.le_add_right _ _) (by omega)) hfuel
  · exact strncat_iff hs ho hcount (by omega) (hapart.sub (Nat.le_add_right _ _) (by omega)) hfuel

/-- "ab" at 16, and a buffer of four bytes at 32 that holds "x". -/
def bufferMem (a : Nat) : Byte :=
  if a = 16 then 0x61 else if a = 17 then 0x62 else if a = 32 then 0x78 else if 33 < a ∧ a < 40 then 0x7f else 0

/-- "ab" and "xab" with their terminators fill three and four bytes of it, and for a count of two `strncat`
appends all of "ab", too. -/
theorem copies_ab : Copies (strcpy 3 32 16 (.fresh bufferMem)) 32 [0x61, 0x62, 0] (.fresh bufferMem) ∧
    Copies (strncpy 3 32 16 2 (.fresh bufferMem)) 32 [0x61, 0x62] (.fresh bufferMem) ∧
    Copies (strcat 3 32 16 (.fresh bufferMem)) 33 [0x61, 0x62, 0] (.fresh bufferMem) ∧
    Copies (strncat 3 32 16 2 (.fresh bufferMem)) 33 [0x61, 0x62, 0] (.fresh bufferMem) := by
  have hs : Str bufferMem 16 [0x61, 0x62] := by decide
  have ho : Str bufferMem 32 [0x78] := by decide
  obtain ⟨hcpy, hncpy, hcat, hncat⟩ := copies_exact (c := .fresh bufferMem) hs
    (show 2 < 2 ^ 31 by decide) (show 32 + 4 ≤ 2 ^ 32 by decide) (.inl (by decide)) (show 2 < 3 by decide)
  exact ⟨hcpy (by decide), hncpy (by decide), hcat [0x78] ho (by decide),
    (hncat [0x78] ho (by decide)).mpr (by decide)⟩

/-- Empty strings at 16 and 32, and a byte behind the second. -/
def tightMem (a : Nat) : Byte := if a = 33 then 0x7f else 0

theorem tight_apart : Apart 16 1 32 1 := Or.inl (by decide)

/-- An empty string is appended to an empty one, in a buffer of one byte: the byte behind it is
written, too. -/
theorem strncat_overruns : ∃ c', strncat 1 32 16 1 (.fresh tightMem) = some c' ∧ c'.writes = [32, 33] ∧
    ¬ Copies (strncat 1 32 16 1 (.fresh tightMem)) 32 [0] (.fresh tightMem) := by
  have hs : Str tightMem 16 [] := by decide
  have ho : Str tightMem 32 [] := by decide
  obtain ⟨c', hrun, hwrites⟩ := strncat_end (c := .fresh tightMem) hs ho (show 0 < 1 by decide) (by decide)
    (by decide) tight_apart (show 0 < 1 by decide)
  have hlast : inc (32 + ([] : List Byte).length + ([] : List Byte).length) = 33 := inc_eq (by decide)
  rw [hlast] at hwrites
  have hiff := strncat_iff (c := .fresh tightMem) hs ho (show 1 < 2 ^ 31 by decide) (by decide)
    tight_apart (show 0 < 1 by decide)
  exact ⟨c', hrun, hwrites, fun h => absurd (hiff.mp h) (by decide)⟩

end Linux011.Include
