import Linux011.Include.StringSpan
import Mathlib.Data.List.Infix

/-!
# Searching for a string

`strstr` compares all of `ct` with the text at one place after the other, and
gives up when the byte that was different is a terminator: `ct` has none, so it
is the one of `cs`, and the rest of the text is too short for `ct` from here on.

* `prefix_or_differ` — what a comparison finds;
* `strstrLoop_spec` — the loop, from any place on;
* `strstr_first` — the first occurrence, and what has been read.
-/

namespace Linux011.Include

open Linux011.Lib.ByteInstr

/-- `repe; cmpsb` at the label `1`. -/
def compareText (ct : Nat) (c : Cpu) : Cpu := { c with edi := ct, eax := c.esi, ecx := c.edx }.repeCmpsb

/-- `xchgl %%eax,%%esi; incl %%esi; cmpb $0,-1(%%eax)`. -/
def advance (c : Cpu) : Cpu :=
  let c := { c with eax := c.esi, esi := c.eax }.incEsi
  c.cmpZero (dec c.eax)

/-- The loop at `1`. -/
def strstrLoop (ct : Nat) : Nat → Cpu → Option Cpu
  | 0, _ => none
  | fuel + 1, c =>
    let c := compareText ct c
    if c.zf then some c
    else
      let c := advance c
      if c.zf then some ({ c with eax := 0 }.flags32 0) else strstrLoop ct fuel c

/-- `"0" (0), "c" (0xffffffff), "S" (cs)`; the result is in `eax`. -/
def strstr (fuel cs ct : Nat) (c : Cpu) : Option Cpu :=
  let c := setLength ct { c with eax := 0, ecx := 2 ^ 32 - 1, esi := cs }
  strstrLoop ct fuel { c with edx := c.ecx }

/-- `ct` occurs at `i` in the text, and nowhere before. -/
def FirstAt (d l : List Byte) (i : Nat) : Prop := d <+: l.drop i ∧ ∀ j < i, ¬ d <+: l.drop j

variable {c : Cpu} {mem : Nat → Byte} {fuel cs ct p q : Nat} {l d : List Byte}

/-! ## Occurrences -/

theorem firstAt_zero (h : d <+: l) : FirstAt d l 0 := ⟨h, fun _ hj => absurd hj (Nat.not_lt_zero _)⟩

theorem firstAt_succ {b : Byte} {i : Nat} (hthis : ¬ d <+: b :: l) (h : FirstAt d l i) : FirstAt d (b :: l) (i + 1) := by
  refine ⟨h.1, fun j hj => ?_⟩
  cases j with
  | zero => exact hthis
  | succ j => exact h.2 j (Nat.lt_of_succ_lt_succ hj)

theorem nowhere_cons {b : Byte} (hthis : ¬ d <+: b :: l) (h : ∀ i, ¬ d <+: l.drop i) (i : Nat) :
    ¬ d <+: (b :: l).drop i := by
  cases i with
  | zero => exact hthis
  | succ i => exact h i

/-- The text is too short. -/
theorem nowhere_of_length (h : l.length < d.length) (i : Nat) : ¬ d <+: l.drop i := by
  intro hpre
  have hle := hpre.length_le
  rw [List.length_drop] at hle
  omega

/-- Two strings differ at a place, unless the one begins with the other. -/
theorem prefix_or_differ (hs : Str mem p l) (ht : Str mem q d) :
    d <+: l ∨ ∃ k < d.length, k ≤ l.length ∧ (∀ i < k, mem (p + i) = mem (q + i)) ∧ mem (p + k) ≠ mem (q + k) := by
  induction d generalizing l p q with
  | nil => exact Or.inl List.nil_prefix
  | cons x d ih =>
    have hnone : ∀ i < 0, mem (p + i) = mem (q + i) := fun i hi => absurd hi (Nat.not_lt_zero i)
    cases l with
    | nil =>
      refine Or.inr ⟨0, Nat.succ_pos _, Nat.le_refl _, hnone, ?_⟩
      rw [Nat.add_zero, Nat.add_zero, hs.nil_char, ht.head]
      exact ht.head_ne.symm
    | cons b l =>
      by_cases hb : b = x
      · rcases ih hs.tail ht.tail with hpre | ⟨k, hlt, hle, heq, hne⟩
        · exact Or.inl (List.cons_prefix_cons.mpr ⟨hb.symm, hpre⟩)
        · refine Or.inr ⟨k + 1, Nat.succ_lt_succ hlt, Nat.succ_le_succ hle, fun i hi => ?_, ?_⟩
          · cases i with
            | zero => rw [Nat.add_zero, Nat.add_zero, hs.head, ht.head, hb]
            | succ i =>
              have hrest := heq i (Nat.lt_of_succ_lt_succ hi)
              rwa [Nat.add_right_comm, Nat.add_right_comm q] at hrest
          · rwa [Nat.add_right_comm, Nat.add_right_comm q] at hne
      · refine Or.inr ⟨0, Nat.succ_pos _, Nat.zero_le _, hnone, ?_⟩
        rw [Nat.add_zero, Nat.add_zero, hs.head, ht.head]
        exact hb

theorem char_eq_of_begins (hs : Str mem p l) (ht : Str mem q d) (hpre : d <+: l) {i : Nat} (hi : i < d.length) :
    mem (p + i) = mem (q + i) := by
  rw [ht.char i hi, hs.char i (Nat.lt_of_lt_of_le hi hpre.length_le)]
  exact (hpre.getElem hi).symm

/-! ## The loop -/

/-- No byte behind the two terminators is read. -/
abbrev ReadsTexts (c : Cpu) (l : List Byte) (ct : Nat) (d : List Byte) (c' : Cpu) : Prop :=
  ReadsPair c.esi (l.length + 1) ct (d.length + 1) c c'

/-- What the comparison at one place finds. -/
structure Compared (c : Cpu) (l : List Byte) (ct : Nat) (d : List Byte) (c₁ : Cpu) : Prop extends Same c c₁ where
  eax    : c₁.eax = c.esi
  zf     : c₁.zf = decide (d <+: l)
  differ : ¬ d <+: l → ∃ k ≤ l.length, k < d.length ∧ c₁.esi = inc (c.esi + k)
  reads  : ReadsTexts c l ct d c₁

/-- `decl` has left `zf` set for an empty `ct`, and nothing of it is compared. -/
theorem compare_spec (hs : Str c.mem c.esi l) (ht : Str c.mem ct d) (hedx : c.edx = d.length)
    (hempty : d = [] → c.zf = true) : Compared c l ct d (compareText ct c) := by
  have hsi := hs.top
  have hdi := ht.top
  have hrun : compareText ct c = { c with edi := ct, eax := c.esi, ecx := c.edx }.cmps d.length :=
    congrArg (Cpu.cmps · _) hedx
  rw [hrun]
  rcases prefix_or_differ hs ht with hpre | ⟨k, hlt, hle, heq, hne⟩
  · rcases Nat.eq_zero_or_pos d.length with hzero | hpos
    · have hnil := List.length_eq_zero_iff.mp hzero
      rw [hzero]
      exact ⟨⟨rfl, rfl, rfl, rfl⟩, rfl, (hempty hnil).trans (decide_eq_true hpre).symm, absurd hpre, .refl c⟩
    · have hle := hpre.length_le
      obtain ⟨S, heax, hzf, hreads⟩ := cmps_equal (c := { c with edi := ct, eax := c.esi, ecx := c.edx }) hpos
        (fun i hi => char_eq_of_begins hs ht hpre hi) (show c.esi + d.length ≤ 2 ^ 32 by omega)
        (show ct + d.length ≤ 2 ^ 32 by omega)
      exact ⟨⟨S.ebx, S.edx, S.mem, S.writes⟩, heax, hzf.trans (decide_eq_true hpre).symm, absurd hpre,
        hreads.mono (Nat.le_refl _) (show c.esi + d.length ≤ c.esi + (l.length + 1) by omega) (Nat.le_refl _)
          (show ct + d.length ≤ ct + (d.length + 1) by omega)⟩
  · have hnot : ¬ d <+: l := fun hpre => hne (char_eq_of_begins hs ht hpre hlt)
    obtain ⟨S, heax, hesi, hzf, hreads⟩ := cmps_differ (c := { c with edi := ct, eax := c.esi, ecx := c.edx }) hlt
      heq hne (show c.esi + k < 2 ^ 32 by omega) (show ct + k < 2 ^ 32 by omega)
    exact ⟨⟨S.ebx, S.edx, S.mem, S.writes⟩, heax, hzf.trans (decide_eq_false hnot).symm, fun _ => ⟨k, hle, hlt, hesi⟩,
      hreads.mono (Nat.le_refl _) (show c.esi + (k + 1) ≤ c.esi + (l.length + 1) by omega) (Nat.le_refl _)
        (show ct + (k + 1) ≤ ct + (d.length + 1) by omega)⟩

theorem advance_zf (c : Cpu) : (advance c).zf = (c.mem (dec c.esi) == 0) := rfl

theorem advance_esi (c : Cpu) : (advance c).esi = inc c.eax := rfl

theorem advance_same (c : Cpu) : Same c (advance c) := ⟨rfl, rfl, rfl, rfl⟩

theorem advance_reads (c : Cpu) : (advance c).reads = c.reads ++ [dec c.esi] := rfl

/-- One round: `ct` is here, or the text is at its end, or it goes on. -/
inductive Round (fuel : Nat) (c : Cpu) (l : List Byte) (ct : Nat) (d : List Byte) (c₁ : Cpu) : Prop
  | found (hpre : d <+: l) (heax : c₁.eax = c.esi) (hloop : strstrLoop ct (fuel + 1) c = some c₁)
  | ended (hshort : l.length < d.length) (heax : c₁.eax = 0) (hloop : strstrLoop ct (fuel + 1) c = some c₁)
  | next (hnot : ¬ d <+: l) (hmore : 0 < l.length) (hsame : Same c c₁) (hesi : c₁.esi = c.esi + 1)
      (hloop : strstrLoop ct (fuel + 1) c = strstrLoop ct fuel c₁)

theorem strstrLoop_round (fuel : Nat) (hs : Str c.mem c.esi l) (ht : Str c.mem ct d) (hedx : c.edx = d.length)
    (hempty : d = [] → c.zf = true) : ∃ c₁, ReadsTexts c l ct d c₁ ∧ Round fuel c l ct d c₁ := by
  have C := compare_spec hs ht hedx hempty
  have hstep : strstrLoop ct (fuel + 1) c = if (compareText ct c).zf then some (compareText ct c) else
    if (advance (compareText ct c)).zf then some ({ advance (compareText ct c) with eax := 0 }.flags32 0)
    else strstrLoop ct fuel (advance (compareText ct c)) := rfl
  generalize compareText ct c = c₁ at C hstep
  by_cases hpre : d <+: l
  · rw [if_pos (by rw [C.zf, decide_eq_true hpre])] at hstep
    exact ⟨c₁, C.reads, .found hpre C.eax hstep⟩
  · obtain ⟨k, hle, hlt, hesi⟩ := C.differ hpre
    have hbehind : dec c₁.esi = c.esi + k := by rw [hesi, dec_inc]
    have hread : ReadsTexts c l ct d (advance c₁) := by
      refine C.reads.trans fun a ha => ?_
      rw [advance_reads, List.mem_append, List.mem_singleton, hbehind] at ha
      rcases ha with hold | rfl
      · exact Or.inl hold
      · exact Or.inr (Or.inl ⟨Nat.le_add_right _ _, by omega⟩)
    have hend : (advance c₁).zf = decide (k = l.length) := by
      rw [advance_zf, hbehind, C.mem, Bool.eq_iff_iff, beq_iff_eq, decide_eq_true_iff]
      exact hs.char_eq_zero hle
    rw [if_neg (by simp [C.zf, hpre]), hend] at hstep
    by_cases hlast : k = l.length
    · rw [if_pos (decide_eq_true hlast)] at hstep
      exact ⟨{ advance c₁ with eax := 0 }.flags32 0, hread, .ended (by omega) rfl hstep⟩
    · rw [if_neg (by simp [hlast])] at hstep
      refine ⟨advance c₁, hread, .next hpre (by omega) (C.toSame.trans (advance_same c₁)) ?_ hstep⟩
      have htop := hs.top
      rw [advance_esi, C.eax]
      exact inc_eq (by omega)

/-- What `strstr` returns, for the text at `p`. -/
def Located (d l : List Byte) (p eax : Nat) : Prop :=
  (∃ i, FirstAt d l i ∧ eax = p + i) ∨ (∀ i, ¬ d <+: l.drop i) ∧ eax = 0

theorem strstrLoop_spec (hs : Str c.mem c.esi l) (ht : Str c.mem ct d) (hedx : c.edx = d.length)
    (hempty : d = [] → c.zf = true) (hfuel : l.length < fuel) :
    ∃ c', strstrLoop ct fuel c = some c' ∧ Located d l c.esi c'.eax ∧ ReadsTexts c l ct d c' := by
  induction l generalizing c fuel with
  | nil =>
    obtain ⟨fuel, rfl⟩ := Nat.exists_eq_add_of_lt hfuel
    obtain ⟨c₁, hreads, R⟩ := strstrLoop_round (0 + fuel) hs ht hedx hempty
    cases R with
    | found hpre heax hloop => exact ⟨c₁, hloop, Or.inl ⟨0, firstAt_zero hpre, heax⟩, hreads⟩
    | ended hshort heax hloop => exact ⟨c₁, hloop, Or.inr ⟨nowhere_of_length hshort, heax⟩, hreads⟩
    | next hnot hmore hsame hesi hloop => exact absurd hmore (Nat.lt_irrefl 0)
  | cons b l ih =>
    obtain ⟨fuel, rfl⟩ := Nat.exists_eq_add_of_lt hfuel
    obtain ⟨c₁, hreads, R⟩ := strstrLoop_round ((b :: l).length + fuel) hs ht hedx hempty
    cases R with
    | found hpre heax hloop => exact ⟨c₁, hloop, Or.inl ⟨0, firstAt_zero hpre, heax⟩, hreads⟩
    | ended hshort heax hloop => exact ⟨c₁, hloop, Or.inr ⟨nowhere_of_length hshort, heax⟩, hreads⟩
    | next hnot hmore hsame hesi hloop =>
      have hfuel' : l.length < (b :: l).length + fuel := Nat.lt_add_right fuel (Nat.lt_succ_self l.length)
      obtain ⟨c', hrest, hloc, hreads'⟩ := ih (c := c₁) (by rw [hsame.mem, hesi]; exact hs.tail)
        (by rw [hsame.mem]; exact ht) (by rw [hsame.edx]; exact hedx)
        (fun hnil => absurd (hnil ▸ List.nil_prefix) hnot) hfuel'
      rw [hloop]
      refine ⟨c', hrest, ?_, hreads.trans (hreads'.mono (by omega) ?_ (Nat.le_refl _) (Nat.le_refl _))⟩
      · rcases hloc with ⟨i, hfirst, heax⟩ | ⟨hnowhere, heax⟩
        · refine Or.inl ⟨i + 1, firstAt_succ hnot hfirst, ?_⟩
          rw [heax, hesi, Nat.add_assoc, Nat.add_comm 1]
        · exact Or.inr ⟨nowhere_cons hnot hnowhere, heax⟩
      · rw [hesi, List.length_cons]
        omega

/-! ## The function -/

/-- **`strstr` finds the first occurrence**, for all strings, also empty ones: it terminates, with
its address or NULL if there is none, and reads nothing behind the terminators. -/
theorem strstr_first (hs : Str c.mem cs l) (ht : Str c.mem ct d) (hfuel : l.length < fuel) :
    ∃ c', strstr fuel cs ct c = some c' ∧
      ((∃ i, FirstAt d l i ∧ c'.eax = cs + i) ∨ (∀ i, ¬ d <+: l.drop i) ∧ c'.eax = 0) ∧
      ∀ a ∈ c'.reads, a ∈ c.reads ∨ cs ≤ a ∧ a ≤ cs + l.length ∨ ct ≤ a ∧ a ≤ ct + d.length := by
  have M := setLength_spec (c := { c with eax := 0, ecx := 2 ^ 32 - 1, esi := cs }) ht rfl rfl
  unfold strstr
  generalize setLength ct { c with eax := 0, ecx := 2 ^ 32 - 1, esi := cs } = c₁ at M ⊢
  have hmem : c₁.mem = c.mem := M.mem
  have hesi : c₁.esi = cs := M.esi
  obtain ⟨c', hloop, hloc, hreads⟩ := strstrLoop_spec (c := { c₁ with edx := c₁.ecx })
    (by rw [hmem, hesi]; exact hs) (by rw [hmem]; exact ht) M.ecx
    (fun hnil => M.zf.trans (decide_eq_true hnil)) hfuel
  refine ⟨c', hloop, hesi ▸ hloc, fun a ha => ?_⟩
  rcases hreads a ha with hold | ⟨h₁, h₂⟩ | ⟨h₁, h₂⟩
  · rcases M.reads a hold with hbefore | ⟨h₁, h₂⟩
    · exact Or.inl hbefore
    · exact Or.inr (Or.inr ⟨h₁, by omega⟩)
  · exact Or.inr (Or.inl ⟨hesi ▸ h₁, Nat.lt_succ_iff.mp (hesi ▸ h₂)⟩)
  · exact Or.inr (Or.inr ⟨h₁, by omega⟩)

/-- "b" is in "ab" from its second character on. -/
theorem strstr_ab : ∃ c', strstr 3 16 32 (.fresh abMem) = some c' ∧
    ((∃ i, FirstAt [0x62] [0x61, 0x62] i ∧ c'.eax = 16 + i) ∨
      (∀ i, ¬ [0x62] <+: List.drop i ([0x61, 0x62] : List Byte)) ∧ c'.eax = 0) ∧
    ∀ a ∈ c'.reads, a ∈ (Cpu.fresh abMem).reads ∨ 16 ≤ a ∧ a ≤ 18 ∨ 32 ≤ a ∧ a ≤ 33 :=
  strstr_first (by decide) (by decide) (by decide)

end Linux011.Include
