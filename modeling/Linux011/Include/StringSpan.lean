import Linux011.Lib.ByteInstr
import Mathlib.Data.List.TakeWhile

/-!
# Spans of a string

`strspn`, `strcspn` and `strpbrk` walk over `cs` and look each character up in
`ct` with `repne scasb`, over as many bytes as `ct` has characters. For an empty
`ct` that is none at all, and the branch behind it sees the flag of the
`testb` before, which says that the character is not the terminator: it is not
in `ct`, then.

`strtok` has the same loop, twice.

* `setLength_spec` — the length of `ct`;
* `spanLoop_spec` — the loop;
* `spans_eq` — the three functions.
-/

namespace Linux011.Include

open Linux011.Lib.ByteInstr

/-- `movl %4,%%edi; repne; scasb; notl %%ecx; decl %%ecx`. -/
def setLength (ct : Nat) (c : Cpu) : Cpu := { c with edi := ct }.repneScasb.notEcx.decEcx

/-- The loop at `1`, in `strtok` at `2` and `3`: up to the terminator, or to the first character for
which `scasb` does not leave `zf` at `again`. Whether it was the terminator comes first. -/
def spanLoop (again : Bool) (ct : Nat) : Nat → Cpu → Option (Bool × Cpu)
  | 0, _ => none
  | fuel + 1, c =>
    let c := c.lodsb.testAl
    if c.zf then some (true, c)
    else
      let c := { c with edi := ct, ecx := c.edx }.repneScasb
      if c.zf = again then spanLoop again ct fuel c else some (false, c)

/-- The three functions up to the label `2`; `"a" (0), "c" (0xffffffff), "0" (cs)`. -/
def span (again : Bool) (fuel cs ct : Nat) (c : Cpu) : Option (Bool × Cpu) :=
  let c := setLength ct { c with eax := 0, ecx := 2 ^ 32 - 1, esi := cs }
  spanLoop again ct fuel { c with edx := c.ecx }

/-- `je 1b`; the result is an `int`, as its word. -/
def strspn (fuel cs ct : Nat) (c : Cpu) : Option (BitVec 32) :=
  (span true fuel cs ct c).map fun r => BitVec.ofNat 32 r.2.decEsi.esi - BitVec.ofNat 32 cs

/-- `jne 1b`. -/
def strcspn (fuel cs ct : Nat) (c : Cpu) : Option (BitVec 32) :=
  (span false fuel cs ct c).map fun r => BitVec.ofNat 32 r.2.decEsi.esi - BitVec.ofNat 32 cs

/-- `jne 1b`, and `xorl %0,%0` at the terminator. -/
def strpbrk (fuel cs ct : Nat) (c : Cpu) : Option Nat :=
  (span false fuel cs ct c).map fun r => if r.1 then 0 else r.2.decEsi.esi

variable {c : Cpu} {again : Bool} {fuel cs ct : Nat} {l d : List Byte}

/-! ## The length of `ct` -/

/-- `ecx` has the length, and `zf` says whether it is 0. -/
structure Measured (d : List Byte) (ct : Nat) (c c' : Cpu) : Prop extends Scanned c c' where
  ecx   : c'.ecx = d.length
  zf    : c'.zf = decide (d = [])
  reads : ReadsIn ct (d.length + 1) c c'

theorem setLength_spec (ht : Str c.mem ct d) (heax : c.eax = 0) (hecx : c.ecx = 2 ^ 32 - 1) :
    Measured d ct c (setLength ct c) := by
  have hal : c.al = 0 := by
    unfold Cpu.al
    rw [heax]
    rfl
  obtain ⟨S, hlen, hzf, hreads⟩ := scas_length (c := { c with edi := ct }) ht hal hecx
  exact ⟨⟨⟨S.ebx, S.edx, S.mem, S.writes⟩, S.eax, S.esi⟩, hlen, hzf, hreads⟩

/-! ## The loop -/

/-- The characters it goes on at. -/
def accepts (again : Bool) (d : List Byte) (b : Byte) : Bool := d.contains b == again

theorem accepts_eq (again : Bool) (d : List Byte) (b : Byte) : accepts again d b = (decide (b ∈ d) == again) :=
  congrArg (· == again) (List.contains_eq_mem b d)

theorem accepts_true (d : List Byte) : accepts true d = fun b => decide (b ∈ d) := by
  funext b
  exact (accepts_eq true d b).trans (beq_true _)

theorem accepts_false (d : List Byte) : accepts false d = fun b => decide (b ∉ d) := by
  funext b
  exact (accepts_eq false d b).trans ((beq_false _).trans decide_not.symm)

/-- How many of them `l` begins with. -/
def spanLength (again : Bool) (d l : List Byte) : Nat := (l.takeWhile (accepts again d)).length

theorem spanLength_cons (again : Bool) (d l : List Byte) (b : Byte) :
    spanLength again d (b :: l) = if accepts again d b then spanLength again d l + 1 else 0 := by
  unfold spanLength
  rw [List.takeWhile_cons]
  split <;> rfl

theorem spanLength_le (again : Bool) (d l : List Byte) : spanLength again d l ≤ l.length :=
  (List.takeWhile_prefix _).length_le

theorem accepts_of_mem_take {b : Byte} (hb : b ∈ l.take (spanLength again d l)) : accepts again d b = true := by
  have htake := List.prefix_iff_eq_take.mp (List.takeWhile_prefix (accepts again d) (l := l))
  exact List.mem_takeWhile_imp (htake ▸ hb)

/-- It stops where it has to. -/
theorem accepts_stop {b : Byte} (hb : l[spanLength again d l]? = some b) : accepts again d b = false := by
  induction l with
  | nil => exact nomatch hb
  | cons x l ih =>
    rw [spanLength_cons] at hb
    by_cases hin : accepts again d x = true
    · rw [if_pos hin, List.getElem?_cons_succ] at hb
      exact ih hb
    · rw [if_neg hin, List.getElem?_cons_zero] at hb
      rw [← Option.some.inj hb]
      exact Bool.eq_false_iff.mpr hin

/-- What the loop leaves. -/
structure Spanned (again : Bool) (d l : List Byte) (c : Cpu) (r : Bool × Cpu) : Prop extends Same c r.2 where
  esi : dec r.2.esi = c.esi + spanLength again d l
  fin : r.1 = decide (spanLength again d l = l.length)

/-- A character is looked up: for an empty `ct` too. -/
theorem lookup_spec (ht : Str c.mem ct d) (hedx : c.edx = d.length) (hzf : c.zf = false) :
    Scanned c { c with edi := ct, ecx := c.edx }.repneScasb ∧
      { c with edi := ct, ecx := c.edx }.repneScasb.zf = decide (c.al ∈ d) := by
  obtain ⟨S, hfound⟩ := scas_mem (c := { c with edi := ct, ecx := c.edx }) ht hedx
  refine ⟨⟨⟨S.ebx, S.edx, S.mem, S.writes⟩, S.eax, S.esi⟩, ?_⟩
  rw [hfound]
  by_cases hnil : d = []
  · rw [if_pos hnil, hnil]
    exact hzf
  · rw [if_neg hnil]
    rfl

theorem spanLoop_nil (again : Bool) (ct fuel : Nat) (hs : Str c.mem c.esi []) :
    ∃ c₁, Same c c₁ ∧ dec c₁.esi = c.esi ∧ spanLoop again ct (fuel + 1) c = some (true, c₁) := by
  have hend : c.lodsb.testAl.zf = true := by
    rw [testAl_lodsb_zf, hs.nil_char]
    rfl
  exact ⟨c.lodsb.testAl, ⟨rfl, rfl, rfl, rfl⟩, dec_inc c.esi, if_pos hend⟩

theorem spanLoop_cons {b : Byte} (again : Bool) (fuel : Nat) (ht : Str c.mem ct d) (hedx : c.edx = d.length) (hs : Str c.mem c.esi (b :: l)) :
    ∃ c₁, Same c c₁ ∧ c₁.esi = c.esi + 1 ∧ spanLoop again ct (fuel + 1) c =
      if accepts again d b then spanLoop again ct fuel c₁ else some (false, c₁) := by
  have hmore : c.lodsb.testAl.zf = false := by
    rw [testAl_lodsb_zf, hs.head]
    exact beq_eq_false_iff_ne.mpr hs.head_ne
  have hal : c.lodsb.testAl.al = b := (lodsb_al c).trans hs.head
  have hkept : Same c c.lodsb.testAl := ⟨rfl, rfl, rfl, rfl⟩
  have hnext : c.lodsb.testAl.esi = c.esi + 1 := by
    have htop := hs.tail.top
    exact inc_eq (by omega)
  have hstep : spanLoop again ct (fuel + 1) c = if c.lodsb.testAl.zf then some (true, c.lodsb.testAl) else
    if { c.lodsb.testAl with edi := ct, ecx := c.lodsb.testAl.edx }.repneScasb.zf = again then
      spanLoop again ct fuel { c.lodsb.testAl with edi := ct, ecx := c.lodsb.testAl.edx }.repneScasb
    else some (false, { c.lodsb.testAl with edi := ct, ecx := c.lodsb.testAl.edx }.repneScasb) := rfl
  obtain ⟨S, hlook⟩ := lookup_spec (c := c.lodsb.testAl) ht hedx hmore
  refine ⟨_, hkept.trans S.toSame, S.esi.trans hnext, ?_⟩
  rw [hstep, if_neg (by simp [hmore]), hlook, hal, accepts_eq]
  exact if_congr beq_iff_eq.symm rfl rfl

theorem spanLoop_spec (again : Bool) (ht : Str c.mem ct d) (hedx : c.edx = d.length) (hs : Str c.mem c.esi l)
    (hfuel : l.length < fuel) : ∃ r, spanLoop again ct fuel c = some r ∧ Spanned again d l c r := by
  induction l generalizing c fuel with
  | nil =>
    obtain ⟨fuel, rfl⟩ := Nat.exists_eq_add_of_lt hfuel
    obtain ⟨c₁, hsame, hesi, hloop⟩ := spanLoop_nil again ct (0 + fuel) hs
    exact ⟨(true, c₁), hloop, hsame, hesi, rfl⟩
  | cons b l ih =>
    obtain ⟨fuel, rfl⟩ := Nat.exists_eq_add_of_lt hfuel
    obtain ⟨c₁, hsame, hesi, hloop⟩ := spanLoop_cons again ((b :: l).length + fuel) ht hedx hs
    rw [hloop]
    by_cases hgo : accepts again d b = true
    · have hlen : spanLength again d (b :: l) = spanLength again d l + 1 := by rw [spanLength_cons, if_pos hgo]
      have hfuel' : l.length < (b :: l).length + fuel := Nat.lt_add_right fuel (Nat.lt_succ_self l.length)
      obtain ⟨r, hrest, R⟩ := ih (c := c₁) (by rw [hsame.mem]; exact ht) (by rw [hsame.edx]; exact hedx)
        (by rw [hsame.mem, hesi]; exact hs.tail) hfuel'
      rw [if_pos hgo]
      refine ⟨r, hrest, hsame.trans R.toSame, ?_, ?_⟩
      · rw [R.esi, hesi, hlen, Nat.add_assoc, Nat.add_comm 1]
      · rw [R.fin, hlen, List.length_cons]
        exact decide_eq_decide.mpr Nat.succ_inj.symm
    · have hlen : spanLength again d (b :: l) = 0 := by rw [spanLength_cons, if_neg hgo]
      rw [if_neg hgo]
      refine ⟨(false, c₁), rfl, hsame, ?_, ?_⟩
      · rw [hlen, hesi]
        exact dec_eq (Nat.succ_pos _)
      · rw [hlen]
        exact (decide_eq_false (Nat.succ_ne_zero l.length).symm).symm

/-- Up to the label `2`, from the beginning. -/
theorem span_spec (again : Bool) (hs : Str c.mem cs l) (ht : Str c.mem ct d) (hfuel : l.length < fuel) :
    ∃ r, span again fuel cs ct c = some r ∧ dec r.2.esi = cs + spanLength again d l ∧
      r.1 = decide (spanLength again d l = l.length) := by
  have M := setLength_spec (c := { c with eax := 0, ecx := 2 ^ 32 - 1, esi := cs }) ht rfl rfl
  unfold span
  generalize setLength ct { c with eax := 0, ecx := 2 ^ 32 - 1, esi := cs } = c₁ at M ⊢
  have hmem : c₁.mem = c.mem := M.mem
  have hesi : c₁.esi = cs := M.esi
  obtain ⟨r, hr, R⟩ := spanLoop_spec again (c := { c₁ with edx := c₁.ecx })
    (by rw [hmem]; exact ht) M.ecx (by rw [hmem, hesi]; exact hs) hfuel
  exact ⟨r, hr, by rw [R.esi, hesi], R.fin⟩

/-! ## The three functions -/

/-- `__res-cs`. -/
theorem toNat_sub_address {a p n : Nat} (ha : a = p + n) (htop : p + n < 2 ^ 32) :
    (BitVec.ofNat 32 a - BitVec.ofNat 32 p).toNat = n := by
  have hle : BitVec.ofNat 32 p ≤ BitVec.ofNat 32 a := by
    rw [BitVec.le_def, BitVec.toNat_ofNat, BitVec.toNat_ofNat]
    omega
  rw [BitVec.toNat_sub_of_le hle, BitVec.toNat_ofNat, BitVec.toNat_ofNat]
  omega

theorem findIdx?_eq_span (d l : List Byte) :
    l.findIdx? (· ∈ d) = if spanLength false d l = l.length then none else some (spanLength false d l) := by
  induction l with
  | nil => rfl
  | cons b l ih =>
    rw [List.findIdx?_cons, spanLength_cons, ih]
    by_cases hin : b ∈ d
    · have hstop : ¬ accepts false d b = true := by simp [accepts_false, hin]
      rw [if_pos (decide_eq_true hin), if_neg hstop]
      exact (if_neg (Nat.succ_ne_zero l.length).symm).symm
    · have hgo : accepts false d b = true := by simp [accepts_false, hin]
      rw [if_neg (by simp [hin]), if_pos hgo, List.length_cons]
      by_cases hall : spanLength false d l = l.length
      · rw [if_pos hall, if_pos (congrArg (· + 1) hall)]
        rfl
      · rw [if_neg hall, if_neg (fun h => hall (Nat.succ_inj.mp h))]
        rfl

/-- **Spans.** For all strings, also empty ones: the length of the longest prefix of `cs` of
characters in `ct`, of the longest without any, and the first character that is in `ct`. -/
theorem spans_eq (hs : Str c.mem cs l) (ht : Str c.mem ct d) (hfuel : l.length < fuel) :
    (strspn fuel cs ct c).map BitVec.toNat = some (l.takeWhile (· ∈ d)).length ∧
      (strcspn fuel cs ct c).map BitVec.toNat = some (l.takeWhile (· ∉ d)).length ∧
      strpbrk fuel cs ct c = some ((l.findIdx? (· ∈ d)).elim 0 (cs + ·)) := by
  have hin : spanLength true d l = (l.takeWhile (· ∈ d)).length := by rw [spanLength, accepts_true]
  have hout : spanLength false d l = (l.takeWhile (· ∉ d)).length := by rw [spanLength, accepts_false]
  have hword : ∀ {again : Bool} {a : Nat}, a = cs + spanLength again d l →
      (BitVec.ofNat 32 a - BitVec.ofNat 32 cs).toNat = spanLength again d l := by
    intro again a ha
    have hle := spanLength_le again d l
    have htop := hs.top
    exact toNat_sub_address ha (by omega)
  obtain ⟨r, hr, hesi, -⟩ := span_spec true hs ht hfuel
  obtain ⟨r', hr', hesi', hfin'⟩ := span_spec false hs ht hfuel
  refine ⟨?_, ?_, ?_⟩
  · unfold strspn
    rw [hr, ← hin, Option.map_some, Option.map_some]
    exact congrArg some (hword hesi)
  · unfold strcspn
    rw [hr', ← hout, Option.map_some, Option.map_some]
    exact congrArg some (hword hesi')
  · unfold strpbrk
    rw [hr', findIdx?_eq_span, Option.map_some, hfin']
    by_cases hall : spanLength false d l = l.length
    · rw [if_pos (decide_eq_true hall), if_pos hall]
      rfl
    · rw [if_neg (by simp [hall]), if_neg hall]
      exact congrArg some hesi'

/-- "ab" at 16, and "b" at 32. -/
def abMem (a : Nat) : Byte := if a = 16 then 0x61 else if a = 17 ∨ a = 32 then 0x62 else 0

theorem spans_ab : (strspn 3 16 32 (.fresh abMem)).map BitVec.toNat = some 0 ∧
    (strcspn 3 16 32 (.fresh abMem)).map BitVec.toNat = some 1 ∧ strpbrk 3 16 32 (.fresh abMem) = some 17 :=
  spans_eq (l := [0x61, 0x62]) (d := [0x62]) (by decide) (by decide) (by decide)

end Linux011.Include
