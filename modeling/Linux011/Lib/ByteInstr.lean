import Mathlib.Algebra.Group.Nat.Defs
import Mathlib.Data.List.Basic
import Mathlib.Tactic.Common
import Mathlib.Tactic.SplitIfs

/-!
# String instructions on bytes

Registers and addresses of 32 bits, the two flags that matter, and a memory of
bytes that keeps the addresses read and written, in order. The direction flag
is clear. A repeated instruction with 0 in `ecx` does nothing, and leaves the
flags as they are.

* `Str` — a string with its terminator;
* `scas_end`, `scas_length`, `scas_mem` — `repne scasb`: for the end of a string, for its length,
  and for one of its characters;
* `cmps_equal`, `cmps_differ` — `repe cmpsb`;
* `Stored`, `stos_spec` — `rep stosb`.
-/

namespace Linux011.Lib.ByteInstr

abbrev Byte := BitVec 8

structure Cpu where
  eax    : Nat
  ebx    : Nat
  ecx    : Nat
  edx    : Nat
  esi    : Nat
  edi    : Nat
  zf     : Bool
  sf     : Bool
  mem    : Nat → Byte
  reads  : List Nat
  writes : List Nat

/-- Nothing has run on this memory yet. -/
def Cpu.fresh (mem : Nat → Byte) : Cpu := ⟨0, 0, 0, 0, 0, 0, false, false, mem, [], []⟩

@[irreducible] def inc (a : Nat) : Nat := if a = 2 ^ 32 - 1 then 0 else a + 1
@[irreducible] def dec (a : Nat) : Nat := if a = 0 then 2 ^ 32 - 1 else a - 1
@[irreducible] def not32 (a : Nat) : Nat := 2 ^ 32 - 1 - a

namespace Cpu

/-! ## Instructions -/

def al (c : Cpu) : Byte := BitVec.ofNat 8 c.eax

/-- The flags of a result of 8 bits. -/
def flags (c : Cpu) (x : Byte) : Cpu := { c with zf := x == 0, sf := x.msb }

/-- The flags of a result of 32 bits. -/
def flags32 (c : Cpu) (x : Nat) : Cpu := { c with zf := x == 0, sf := decide (2 ^ 31 ≤ x) }

def lodsb (c : Cpu) : Cpu :=
  { c with
    eax   := c.eax / 256 * 256 + (c.mem c.esi).toNat
    esi   := inc c.esi
    reads := c.reads ++ [c.esi] }

def stosb (c : Cpu) : Cpu :=
  { c with
    mem    := Function.update c.mem c.edi c.al
    edi    := inc c.edi
    writes := c.writes ++ [c.edi] }

def scasb (c : Cpu) : Cpu :=
  { c with edi := inc c.edi, reads := c.reads ++ [c.edi] }.flags (c.al - c.mem c.edi)

def cmpsb (c : Cpu) : Cpu :=
  { c with esi := inc c.esi, edi := inc c.edi, reads := c.reads ++ [c.esi, c.edi] }.flags (c.mem c.esi - c.mem c.edi)

/-- `testb %al,%al`. -/
def testAl (c : Cpu) : Cpu := c.flags c.al

/-- `cmpb $0,(a)`. -/
def cmpZero (c : Cpu) (a : Nat) : Cpu := { c with reads := c.reads ++ [a] }.flags (c.mem a)

/-- `movb $0,(a)`. -/
def movZero (c : Cpu) (a : Nat) : Cpu := { c with mem := Function.update c.mem a 0, writes := c.writes ++ [a] }

def decEcx (c : Cpu) : Cpu := { c with ecx := dec c.ecx }.flags32 (dec c.ecx)
def decEsi (c : Cpu) : Cpu := { c with esi := dec c.esi }.flags32 (dec c.esi)
def decEdi (c : Cpu) : Cpu := { c with edi := dec c.edi }.flags32 (dec c.edi)
def incEsi (c : Cpu) : Cpu := { c with esi := inc c.esi }.flags32 (inc c.esi)
def notEcx (c : Cpu) : Cpu := { c with ecx := not32 c.ecx }

/-- `repne; scasb` with `n` in `ecx`. -/
def scas : Nat → Cpu → Cpu
  | 0, c => c
  | n + 1, c =>
    let c := { c with ecx := n }.scasb
    if c.zf then c else scas n c

def repneScasb (c : Cpu) : Cpu := scas c.ecx c

/-- `repe; cmpsb` with `n` in `ecx`. -/
def cmps : Nat → Cpu → Cpu
  | 0, c => c
  | n + 1, c =>
    let c := { c with ecx := n }.cmpsb
    if c.zf then cmps n c else c

def repeCmpsb (c : Cpu) : Cpu := cmps c.ecx c

/-- `rep; stosb` with `n` in `ecx`. -/
def stos : Nat → Cpu → Cpu
  | 0, c => c
  | n + 1, c => stos n { c with ecx := n }.stosb

def repStosb (c : Cpu) : Cpu := stos c.ecx c

end Cpu

/-! ## Strings -/

/-- The characters of a string at `p`, and its terminator. -/
structure Str (mem : Nat → Byte) (p : Nat) (l : List Byte) : Prop where
  pos   : 0 < p
  top   : p + l.length < 2 ^ 32
  char  : ∀ i (h : i < l.length), mem (p + i) = l[i]
  nonul : ∀ b ∈ l, b ≠ 0
  nul   : mem (p + l.length) = 0

instance (mem : Nat → Byte) (p : Nat) (l : List Byte) : Decidable (Str mem p l) :=
  decidable_of_iff (0 < p ∧ p + l.length < 2 ^ 32 ∧ (∀ i (h : i < l.length), mem (p + i) = l[i]) ∧
      (∀ b ∈ l, b ≠ 0) ∧ mem (p + l.length) = 0)
    ⟨fun h => ⟨h.1, h.2.1, h.2.2.1, h.2.2.2.1, h.2.2.2.2⟩, fun h => ⟨h.pos, h.top, h.char, h.nonul, h.nul⟩⟩

/-- Nothing is written, and `ebx` and `edx` stay as they are. -/
structure Same (c c' : Cpu) : Prop where
  ebx    : c'.ebx = c.ebx
  edx    : c'.edx = c.edx
  mem    : c'.mem = c.mem
  writes : c'.writes = c.writes

/-- So do `eax` and `esi`. -/
structure Scanned (c c' : Cpu) : Prop extends Same c c' where
  eax : c'.eax = c.eax
  esi : c'.esi = c.esi

/-- Nothing else than the `n` bytes from `p` on has been read. -/
def ReadsIn (p n : Nat) (c c' : Cpu) : Prop := ∀ a ∈ c'.reads, a ∈ c.reads ∨ p ≤ a ∧ a < p + n

variable {c c' c'' : Cpu} {mem : Nat → Byte} {p n k : Nat} {l : List Byte}

theorem inc_eq {a : Nat} (h : a + 1 < 2 ^ 32) : inc a = a + 1 := by
  unfold inc
  exact if_neg (by omega)

theorem dec_inc (a : Nat) : dec (inc a) = a := by
  unfold dec inc
  by_cases hlast : a = 2 ^ 32 - 1
  · rw [if_pos hlast, if_pos rfl, hlast]
  · rw [if_neg hlast, if_neg (Nat.succ_ne_zero a), Nat.add_sub_cancel]

theorem dec_eq {a : Nat} (hpos : 0 < a) : dec a = a - 1 := by
  unfold dec
  exact if_neg (by omega)

theorem lodsb_al (c : Cpu) : c.lodsb.al = c.mem c.esi := by
  apply BitVec.eq_of_toNat_eq
  show (c.eax / 256 * 256 + (c.mem c.esi).toNat) % 2 ^ 8 = _
  rw [Nat.mul_add_mod_self_right]
  exact Nat.mod_eq_of_lt (c.mem c.esi).isLt

theorem testAl_lodsb_zf (c : Cpu) : c.lodsb.testAl.zf = (c.mem c.esi == 0) := congrArg (· == 0) (lodsb_al c)

theorem cmpZero_zf {a : Nat} (h : c.mem a ≠ 0) : (c.cmpZero a).zf = false := beq_eq_false_iff_ne.mpr h

theorem Str.nil_char (h : Str mem p []) : mem p = 0 := h.nul

theorem Str.head {b : Byte} (h : Str mem p (b :: l)) : mem p = b := h.char 0 (Nat.succ_pos _)

theorem Str.head_ne {b : Byte} (h : Str mem p (b :: l)) : b ≠ 0 := h.nonul b List.mem_cons_self

theorem Str.congr {mem' : Nat → Byte} (h : Str mem p l) (heq : ∀ i ≤ l.length, mem' (p + i) = mem (p + i)) :
    Str mem' p l where
  pos := h.pos
  top := h.top
  char := fun i hi => (heq i (Nat.le_of_lt hi)).trans (h.char i hi)
  nonul := h.nonul
  nul := (heq l.length (Nat.le_refl _)).trans h.nul

/-- The rest of a string. -/
theorem Str.drop (h : Str mem p l) {j : Nat} (hj : j ≤ l.length) : Str mem (p + j) (l.drop j) where
  pos := Nat.lt_of_lt_of_le h.pos (Nat.le_add_right p j)
  top := by
    have htop := h.top
    rw [List.length_drop]
    omega
  char := fun i hi => by
    rw [List.length_drop] at hi
    rw [Nat.add_assoc, List.getElem_drop]
    exact h.char (j + i) (by omega)
  nonul := fun b hb => h.nonul b (List.mem_of_mem_drop hb)
  nul := by
    rw [List.length_drop, Nat.add_assoc, Nat.add_sub_cancel' hj]
    exact h.nul

theorem Str.tail {b : Byte} (h : Str mem p (b :: l)) : Str mem (p + 1) l := h.drop (Nat.succ_pos l.length)

theorem Str.char_eq_zero (h : Str mem p l) (hk : k ≤ l.length) : mem (p + k) = 0 ↔ k = l.length := by
  constructor
  · intro hzero
    refine Nat.le_antisymm hk (Nat.not_lt.mp fun hlt => ?_)
    rw [h.char k hlt] at hzero
    exact h.nonul _ (List.getElem_mem hlt) hzero
  · intro hend
    rw [hend]
    exact h.nul

/-- A zero in its place ends a string. -/
theorem Str.cut (h : Str mem p l) (hk : k ≤ l.length) : Str (Function.update mem (p + k) 0) p (l.take k) where
  pos := h.pos
  top := by
    have htop := h.top
    rw [List.length_take]
    omega
  char := fun i hi => by
    rw [List.length_take] at hi
    rw [Function.update_of_ne (by omega), List.getElem_take]
    exact h.char i (by omega)
  nonul := fun b hb => h.nonul b (List.mem_of_mem_take hb)
  nul := by
    rw [List.length_take, Nat.min_eq_left hk]
    exact Function.update_self ..

theorem Same.refl (c : Cpu) : Same c c := ⟨rfl, rfl, rfl, rfl⟩

theorem Same.trans (h : Same c c') (h' : Same c' c'') : Same c c'' :=
  ⟨h'.ebx.trans h.ebx, h'.edx.trans h.edx, h'.mem.trans h.mem, h'.writes.trans h.writes⟩

theorem Scanned.refl (c : Cpu) : Scanned c c := ⟨.refl c, rfl, rfl⟩

theorem Scanned.trans (h : Scanned c c') (h' : Scanned c' c'') : Scanned c c'' :=
  ⟨h.toSame.trans h'.toSame, h'.eax.trans h.eax, h'.esi.trans h.esi⟩

theorem Scanned.al (h : Scanned c c') : c'.al = c.al := congrArg (BitVec.ofNat 8) h.eax

theorem ReadsIn.trans (h : ReadsIn p n c c') (h' : ReadsIn p n c' c'') : ReadsIn p n c c'' := by
  intro a ha
  rcases h' a ha with hold | hnew
  · exact h a hold
  · exact Or.inr hnew

theorem ReadsIn.mono (h : ReadsIn p n c c') {q m : Nat} (hlo : q ≤ p) (hhi : p + n ≤ q + m) : ReadsIn q m c c' := by
  intro a ha
  rcases h a ha with hold | ⟨h₁, h₂⟩
  · exact Or.inl hold
  · exact Or.inr ⟨by omega, by omega⟩

theorem ReadsIn.of_append {a : Nat} (hreads : c'.reads = c.reads ++ [a]) (hlo : p ≤ a) (hhi : a < p + n) :
    ReadsIn p n c c' := by
  intro x hx
  rw [hreads, List.mem_append, List.mem_singleton] at hx
  rcases hx with hold | rfl
  · exact Or.inl hold
  · exact Or.inr ⟨hlo, hhi⟩

/-! ## `scasb` -/

theorem sub_beq_zero (x y : Byte) : (x - y == 0) = decide (x = y) := by
  rw [Bool.eq_iff_iff, beq_iff_eq, decide_eq_true_iff]
  constructor
  · intro h
    have hsum := BitVec.sub_eq_iff_eq_add.mp h
    exact hsum.trans (BitVec.zero_add y)
  · intro h
    rw [h]
    exact BitVec.sub_self y

theorem scasb_zf (c : Cpu) : c.scasb.zf = decide (c.al = c.mem c.edi) := sub_beq_zero ..

/-- One step of the scan. -/
structure ScasStep (c : Cpu) (n : Nat) (c₁ : Cpu) : Prop extends Scanned c c₁ where
  zf    : c₁.zf = decide (c.al = c.mem c.edi)
  edi   : c₁.edi = inc c.edi
  ecx   : c₁.ecx = n
  reads : c₁.reads = c.reads ++ [c.edi]

theorem scas_succ (n : Nat) (c : Cpu) :
    ∃ c₁, ScasStep c n c₁ ∧ c.scas (n + 1) = if c₁.zf then c₁ else c₁.scas n :=
  ⟨({ c with ecx := n } : Cpu).scasb, ⟨⟨⟨rfl, rfl, rfl, rfl⟩, rfl, rfl⟩, scasb_zf _, rfl, rfl, rfl⟩, rfl⟩

/-- The scan stops behind the first byte that is `al`. -/
theorem scas_found (hk : k < n) (hne : ∀ i < k, c.mem (c.edi + i) ≠ c.al) (heq : c.mem (c.edi + k) = c.al)
    (htop : c.edi + k < 2 ^ 32) :
    Scanned c (c.scas n) ∧ (c.scas n).ecx = n - (k + 1) ∧ (c.scas n).edi = inc (c.edi + k) ∧ (c.scas n).zf = true ∧
      ReadsIn c.edi (k + 1) c (c.scas n) := by
  induction n generalizing c k with
  | zero => omega
  | succ n ih =>
    obtain ⟨c₁, T, hstep⟩ := scas_succ n c
    rw [hstep]
    have hedi := T.edi
    cases k with
    | zero =>
      have hthis : c₁.zf = true := by
        rw [T.zf, decide_eq_true_iff]
        exact heq.symm
      rw [if_pos hthis]
      exact ⟨T.toScanned, T.ecx, hedi, hthis, .of_append T.reads (Nat.le_refl _) (Nat.lt_succ_self _)⟩
    | succ k =>
      have hthis : ¬ c₁.zf = true := by
        rw [T.zf, decide_eq_true_iff]
        exact fun h => hne 0 (Nat.succ_pos k) h.symm
      rw [inc_eq (by omega)] at hedi
      have hshift : ∀ i, c₁.edi + i = c.edi + (i + 1) := fun i => by omega
      obtain ⟨S', hecx', hedi', hzf', hreads'⟩ := ih (c := c₁) (k := k) (by omega)
        (fun i hi => by rw [T.mem, T.al, hshift]; exact hne (i + 1) (by omega))
        (by rw [T.mem, T.al, hshift]; exact heq) (by omega)
      rw [if_neg hthis]
      refine ⟨T.toScanned.trans S', by omega, by rw [hedi', hshift], hzf', ?_⟩
      exact (ReadsIn.of_append T.reads (Nat.le_refl _) (by omega)).trans (hreads'.mono (by omega) (by omega))

/-- No byte is `al`: the scan goes to its end. -/
theorem scas_missed (hn : 0 < n) (hne : ∀ i < n, c.mem (c.edi + i) ≠ c.al) (htop : c.edi + n ≤ 2 ^ 32) :
    Scanned c (c.scas n) ∧ (c.scas n).zf = false := by
  induction n generalizing c with
  | zero => omega
  | succ n ih =>
    obtain ⟨c₁, T, hstep⟩ := scas_succ n c
    have hedi := T.edi
    have hthis : c₁.zf = false := by
      rw [T.zf, decide_eq_false_iff_not]
      exact fun h => hne 0 (Nat.succ_pos n) h.symm
    rw [hstep, if_neg (by simp [hthis])]
    rcases Nat.eq_zero_or_pos n with rfl | hpos
    · exact ⟨T.toScanned, hthis⟩
    · rw [inc_eq (by omega)] at hedi
      obtain ⟨S', hzf'⟩ := ih (c := c₁) hpos
        (fun i hi => by rw [T.mem, T.al, hedi, Nat.add_right_comm]; exact hne (i + 1) (by omega)) (by omega)
      exact ⟨T.toScanned.trans S', hzf'⟩

theorem decEcx_ecx (c : Cpu) : c.decEcx.ecx = dec c.ecx := rfl

theorem decEcx_zf (c : Cpu) : c.decEcx.zf = (dec c.ecx == 0) := rfl

theorem notEcx_ecx (c : Cpu) : c.notEcx.ecx = not32 c.ecx := rfl

theorem getElem_ne_of_lt_idxOf {d : List Byte} {b : Byte} {i : Nat} (hlen : i < d.length) (h : i < d.idxOf b) :
    d[i] ≠ b := by
  have hnot := List.not_of_lt_findIdx (p := (· == b)) h
  simpa using hnot

/-- `repne scasb` with 0 in `al` and -1 in `ecx` finds the terminator. -/
theorem scas_end {d : List Byte} (hd : Str c.mem c.edi d) (hal : c.al = 0) (hecx : c.ecx = 2 ^ 32 - 1) :
    Scanned c c.repneScasb ∧ c.repneScasb.ecx = 2 ^ 32 - 1 - (d.length + 1) ∧
      c.repneScasb.edi = inc (c.edi + d.length) ∧ ReadsIn c.edi (d.length + 1) c c.repneScasb := by
  have htop := hd.top
  have hpos := hd.pos
  have hne : ∀ i < d.length, c.mem (c.edi + i) ≠ c.al := by
    intro i hi
    rw [hal, hd.char i hi]
    exact hd.nonul _ (List.getElem_mem hi)
  obtain ⟨S, hleft, hedi, -, hreads⟩ :=
    scas_found (n := c.ecx) (k := d.length) (by omega) hne (by rw [hal]; exact hd.nul) htop
  exact ⟨S, hecx ▸ hleft, hedi, hreads⟩

/-- `repne scasb; notl %ecx; decl %ecx` gives the length. -/
theorem scas_length {d : List Byte} (hd : Str c.mem c.edi d) (hal : c.al = 0) (hecx : c.ecx = 2 ^ 32 - 1) :
    Scanned c c.repneScasb.notEcx.decEcx ∧ c.repneScasb.notEcx.decEcx.ecx = d.length ∧
      c.repneScasb.notEcx.decEcx.zf = decide (d = []) ∧
      ReadsIn c.edi (d.length + 1) c c.repneScasb.notEcx.decEcx := by
  have htop := hd.top
  have hpos := hd.pos
  obtain ⟨S, hleft, -, hreads⟩ := scas_end hd hal hecx
  generalize c.repneScasb = c₁ at S hleft hreads ⊢
  have hnot : dec (not32 c₁.ecx) = d.length := by
    rw [hleft]
    unfold not32
    rw [dec_eq (by omega)]
    omega
  refine ⟨⟨⟨S.ebx, S.edx, S.mem, S.writes⟩, S.eax, S.esi⟩, ?_, ?_, hreads⟩
  · rw [decEcx_ecx, notEcx_ecx, hnot]
  rw [decEcx_zf, notEcx_ecx, hnot, Bool.eq_iff_iff, beq_iff_eq, decide_eq_true_iff]
  exact List.length_eq_zero_iff

/-- `repne scasb` over the characters of a string: whether `al` is one of them. Over none of them
the flag is what it was. -/
theorem scas_mem {d : List Byte} (hd : Str c.mem c.edi d) (hecx : c.ecx = d.length) :
    Scanned c c.repneScasb ∧ c.repneScasb.zf = if d = [] then c.zf else decide (c.al ∈ d) := by
  have htop := hd.top
  unfold Cpu.repneScasb
  rw [hecx]
  by_cases hin : c.al ∈ d
  · have hne : d ≠ [] := List.ne_nil_of_mem hin
    have hk : d.idxOf c.al < d.length := List.idxOf_lt_length_of_mem hin
    obtain ⟨S, -, -, hzf, -⟩ := scas_found (c := c) hk
      (fun i hi => by rw [hd.char i (by omega)]; exact getElem_ne_of_lt_idxOf _ hi)
      (by rw [hd.char _ hk]; exact List.getElem_idxOf hk) (by omega)
    rw [if_neg hne, hzf]
    exact ⟨S, (decide_eq_true hin).symm⟩
  · by_cases hnil : d = []
    · subst hnil
      rw [if_pos rfl]
      exact ⟨.refl c, rfl⟩
    · have hmiss : ∀ i < d.length, c.mem (c.edi + i) ≠ c.al := by
        intro i hi h
        rw [hd.char i hi] at h
        exact hin (h ▸ List.getElem_mem hi)
      obtain ⟨S, hzf⟩ := scas_missed (List.length_pos_iff.mpr hnil) hmiss (by omega)
      rw [if_neg hnil, hzf]
      exact ⟨S, (decide_eq_false hin).symm⟩

/-! ## `cmpsb` -/

theorem cmpsb_zf (c : Cpu) : c.cmpsb.zf = decide (c.mem c.esi = c.mem c.edi) := sub_beq_zero ..

/-- What `repe cmpsb` reads of its two blocks. -/
def ReadsPair (p n q m : Nat) (c c' : Cpu) : Prop :=
  ∀ a ∈ c'.reads, a ∈ c.reads ∨ p ≤ a ∧ a < p + n ∨ q ≤ a ∧ a < q + m

variable {q m : Nat}

theorem ReadsPair.refl (c : Cpu) : ReadsPair p n q m c c := fun _ h => Or.inl h

theorem ReadsPair.trans (h : ReadsPair p n q m c c') (h' : ReadsPair p n q m c' c'') : ReadsPair p n q m c c'' := by
  intro a ha
  rcases h' a ha with hold | hnew
  · exact h a hold
  · exact Or.inr hnew

theorem ReadsPair.mono (h : ReadsPair p n q m c c') {p' n' q' m' : Nat} (hlo : p' ≤ p) (hhi : p + n ≤ p' + n')
    (hlo' : q' ≤ q) (hhi' : q + m ≤ q' + m') : ReadsPair p' n' q' m' c c' := by
  intro a ha
  rcases h a ha with hold | ⟨h₁, h₂⟩ | ⟨h₁, h₂⟩
  · exact Or.inl hold
  · exact Or.inr (Or.inl ⟨by omega, by omega⟩)
  · exact Or.inr (Or.inr ⟨by omega, by omega⟩)

/-- One step of the comparison. -/
structure CmpsStep (c c₁ : Cpu) : Prop extends Same c c₁ where
  eax   : c₁.eax = c.eax
  zf    : c₁.zf = decide (c.mem c.esi = c.mem c.edi)
  esi   : c₁.esi = inc c.esi
  edi   : c₁.edi = inc c.edi
  reads : c₁.reads = c.reads ++ [c.esi, c.edi]

theorem cmps_succ (n : Nat) (c : Cpu) :
    ∃ c₁, CmpsStep c c₁ ∧ c.cmps (n + 1) = if c₁.zf then c₁.cmps n else c₁ :=
  ⟨({ c with ecx := n } : Cpu).cmpsb, ⟨⟨rfl, rfl, rfl, rfl⟩, rfl, cmpsb_zf _, rfl, rfl, rfl⟩, rfl⟩

theorem CmpsStep.readsPair (T : CmpsStep c c') (hn : 0 < n) : ReadsPair c.esi n c.edi n c c' := by
  intro a ha
  rw [T.reads, List.mem_append, List.mem_cons, List.mem_singleton] at ha
  rcases ha with hold | rfl | rfl
  · exact Or.inl hold
  · exact Or.inr (Or.inl ⟨Nat.le_refl _, by omega⟩)
  · exact Or.inr (Or.inr ⟨Nat.le_refl _, by omega⟩)

/-- A step, and the rest of the two blocks. -/
theorem CmpsStep.reads_rest (T : CmpsStep c c') (hsi : c'.esi = c.esi + 1) (hdi : c'.edi = c.edi + 1)
    (h : ReadsPair c'.esi n c'.edi n c' c'') : ReadsPair c.esi (n + 1) c.edi (n + 1) c c'' :=
  (T.readsPair (Nat.succ_pos n)).trans (h.mono (by omega) (by omega) (by omega) (by omega))

/-- The blocks are the same, and not empty. -/
theorem cmps_equal (hn : 0 < n) (heq : ∀ i < n, c.mem (c.esi + i) = c.mem (c.edi + i)) (hsi : c.esi + n ≤ 2 ^ 32)
    (hdi : c.edi + n ≤ 2 ^ 32) :
    Same c (c.cmps n) ∧ (c.cmps n).eax = c.eax ∧ (c.cmps n).zf = true ∧ ReadsPair c.esi n c.edi n c (c.cmps n) := by
  induction n generalizing c with
  | zero => omega
  | succ n ih =>
    obtain ⟨c₁, T, hstep⟩ := cmps_succ n c
    have hthis : c₁.zf = true := by
      rw [T.zf, decide_eq_true_iff]
      exact heq 0 (Nat.succ_pos n)
    rw [hstep, if_pos hthis]
    rcases Nat.eq_zero_or_pos n with rfl | hpos
    · exact ⟨T.toSame, T.eax, hthis, T.readsPair (Nat.succ_pos 0)⟩
    · have hesi := T.esi
      have hedi := T.edi
      rw [inc_eq (by omega)] at hesi hedi
      obtain ⟨S, heax, hzf, hreads⟩ := ih (c := c₁) hpos
        (fun i hi => by rw [T.mem, hesi, hedi, Nat.add_right_comm, Nat.add_right_comm _ 1]; exact heq (i + 1) (by omega))
        (by omega) (by omega)
      exact ⟨T.toSame.trans S, heax.trans T.eax, hzf, T.reads_rest hesi hedi hreads⟩

/-- They differ at `k` first: the comparison stops behind that. -/
theorem cmps_differ (hk : k < n) (heq : ∀ i < k, c.mem (c.esi + i) = c.mem (c.edi + i))
    (hne : c.mem (c.esi + k) ≠ c.mem (c.edi + k)) (hsi : c.esi + k < 2 ^ 32) (hdi : c.edi + k < 2 ^ 32) :
    Same c (c.cmps n) ∧ (c.cmps n).eax = c.eax ∧ (c.cmps n).esi = inc (c.esi + k) ∧ (c.cmps n).zf = false ∧
      ReadsPair c.esi (k + 1) c.edi (k + 1) c (c.cmps n) := by
  induction n generalizing c k with
  | zero => omega
  | succ n ih =>
    obtain ⟨c₁, T, hstep⟩ := cmps_succ n c
    rw [hstep]
    cases k with
    | zero =>
      have hthis : c₁.zf = false := by
        rw [T.zf, decide_eq_false_iff_not]
        exact hne
      rw [if_neg (by simp [hthis])]
      exact ⟨T.toSame, T.eax, T.esi, hthis, T.readsPair (Nat.succ_pos 0)⟩
    | succ k =>
      have hthis : c₁.zf = true := by
        rw [T.zf, decide_eq_true_iff]
        exact heq 0 (Nat.succ_pos k)
      have hesi := T.esi
      have hedi := T.edi
      rw [inc_eq (by omega)] at hesi hedi
      have hsi' : ∀ i, c₁.esi + i = c.esi + (i + 1) := fun i => by omega
      have hdi' : ∀ i, c₁.edi + i = c.edi + (i + 1) := fun i => by omega
      obtain ⟨S, heax, hesi', hzf, hreads⟩ := ih (c := c₁) (k := k) (by omega)
        (fun i hi => by rw [T.mem, hsi', hdi']; exact heq (i + 1) (by omega))
        (by rw [T.mem, hsi', hdi']; exact hne) (by omega) (by omega)
      rw [if_pos hthis]
      exact ⟨T.toSame.trans S, heax.trans T.eax, by rw [hesi', hsi'], hzf, T.reads_rest hesi hedi hreads⟩

/-! ## `stosb` -/

/-- These bytes have been written from `p` on, one after the other, and nothing else. -/
structure Stored (p : Nat) (bytes : List Byte) (c c' : Cpu) : Prop where
  mem    : ∀ a, c'.mem a = if p ≤ a then bytes[a - p]?.getD (c.mem a) else c.mem a
  writes : c'.writes = c.writes ++ List.range' p bytes.length

theorem Stored.of_eq {c₁ : Cpu} {x : List Byte} (h : Stored p x c₁ c') (hmem : c₁.mem = c.mem)
    (hwrites : c₁.writes = c.writes) : Stored p x c c' :=
  ⟨fun a => by rw [h.mem, hmem], by rw [h.writes, hwrites]⟩

theorem Stored.of_eq_right {x : List Byte} (h : Stored p x c c') (hmem : c''.mem = c'.mem)
    (hwrites : c''.writes = c'.writes) : Stored p x c c'' :=
  ⟨fun a => by rw [hmem, h.mem], by rw [hwrites, h.writes]⟩

theorem Stored.nil (hmem : c'.mem = c.mem) (hwrites : c'.writes = c.writes) : Stored p [] c c' where
  mem := fun a => by
    rw [List.getElem?_nil, Option.getD_none, ite_self, hmem]
  writes := hwrites.trans (List.append_nil _).symm

theorem Stored.single {b : Byte} (hmem : c'.mem = Function.update c.mem p b) (hwrites : c'.writes = c.writes ++ [p]) :
    Stored p [b] c c' where
  mem := fun a => by
    rw [hmem, Function.update_apply]
    by_cases hat : a = p
    · rw [if_pos hat, if_pos (Nat.le_of_eq hat.symm), hat, Nat.sub_self]
      rfl
    · rw [if_neg hat]
      by_cases hle : p ≤ a
      · rw [if_pos hle, List.getElem?_eq_none (by rw [List.length_singleton]; omega)]
        rfl
      · rw [if_neg hle]
  writes := hwrites

theorem Stored.append {x y : List Byte} (h : Stored p x c c') (h' : Stored (p + x.length) y c' c'') :
    Stored p (x ++ y) c c'' where
  mem := fun a => by
    rw [h'.mem, h.mem]
    by_cases hle : p ≤ a
    · rw [if_pos hle, if_pos hle]
      by_cases hx : a - p < x.length
      · rw [if_neg (by omega), List.getElem?_append_left hx]
      · have hrest : a - (p + x.length) = a - p - x.length := by omega
        rw [if_pos (by omega), List.getElem?_append_right (Nat.not_lt.mp hx), hrest,
          List.getElem?_eq_none (Nat.not_lt.mp hx), Option.getD_none]
    · rw [if_neg hle, if_neg hle, if_neg (by omega)]
  writes := by
    rw [h'.writes, h.writes, List.append_assoc, List.range'_append_1, List.length_append]

theorem Stored.cons {b : Byte} {x : List Byte} (h : Stored p [b] c c') (h' : Stored (p + 1) x c' c'') :
    Stored p (b :: x) c c'' := h.append h'

theorem stos_spec (htop : c.edi + n ≤ 2 ^ 32) : Stored c.edi (List.replicate n c.al) c (c.stos n) := by
  induction n generalizing c with
  | zero => exact .nil rfl rfl
  | succ n ih =>
    have hfirst : Stored c.edi [c.al] c ({ c with ecx := n } : Cpu).stosb := .single rfl rfl
    have hal : ({ c with ecx := n } : Cpu).stosb.al = c.al := rfl
    have hedi : ({ c with ecx := n } : Cpu).stosb.edi = inc c.edi := rfl
    have hstep : c.stos (n + 1) = ({ c with ecx := n } : Cpu).stosb.stos n := rfl
    rw [hstep]
    generalize ({ c with ecx := n } : Cpu).stosb = c₁ at hfirst hal hedi ⊢
    rcases Nat.eq_zero_or_pos n with rfl | hpos
    · exact hfirst
    · rw [inc_eq (by omega)] at hedi
      have hrest := ih (c := c₁) (by omega)
      rw [hal, hedi] at hrest
      exact hfirst.cons hrest

end Linux011.Lib.ByteInstr
