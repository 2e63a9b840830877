import Linux011.Include.StringSpan
import Mathlib.Data.List.Forall2

/-!
# Tokens of a string

`strtok` keeps in `___strtok` where the text goes on, or NULL when it has come
to its end. A call looks for the first character that is no delimiter, then for
the first one that is; this one is overwritten with the terminator of the
token, and the text goes on behind it.

The flags of `testl` and `xorl` are left out: each is tested at once, or set
again before it is.

* `token`, `tokens` — the tokens of a text, for the delimiters of each call;
* `strtok_call` — one call;
* `strtok_tokens` — any number of calls.
-/

namespace Linux011.Include

open Linux011.Lib.ByteInstr

/-! ## The code: `%0` is `ebx`, and `%1` is `esi` -/

/-- `7`: without a token nothing is kept for the next call. -/
def noToken (c : Cpu) : Cpu := if c.ebx = 0 then { c with esi := c.ebx } else c

/-- `6`: an empty token is none. -/
def checkToken (c : Cpu) : Cpu :=
  let c := c.cmpZero c.ebx
  noToken (if c.zf then { c with ebx := 0 } else c)

/-- `3`: to the end of the token. -/
def endToken (fuel ct : Nat) (c : Cpu) : Option Cpu :=
  (spanLoop false ct fuel c).map fun r =>
    if r.1 then checkToken { r.2 with esi := 0 }
    else
      let c := r.2.decEsi
      let c := c.cmpZero c.esi
      if c.zf then checkToken { c with esi := 0 } else checkToken (c.movZero c.esi).incEsi

/-- `2`: over the delimiters. -/
def skipDelimiters (fuel ct : Nat) (c : Cpu) : Option Cpu :=
  (spanLoop true ct fuel c).bind fun r =>
    if r.1 then some (noToken r.2)
    else
      let c := r.2.decEsi
      let c := c.cmpZero c.esi
      if c.zf then some (noToken c) else endToken fuel ct { c with ebx := c.esi }

/-- `1`: with the text in `esi`. -/
def scanText (fuel ct : Nat) (c : Cpu) : Option Cpu :=
  let c := setLength ct { c with ebx := 0, ecx := 2 ^ 32 - 1, eax := 0 }
  if c.zf then some (noToken c) else skipDelimiters fuel ct { c with edx := c.ecx }

/-- `"0" (___strtok), "1" (s)`; the result is in `ebx`, and `esi` is the next `___strtok`. -/
def strtok (fuel s ct saved : Nat) (c : Cpu) : Option Cpu :=
  let c := { c with ebx := saved, esi := s }
  if c.esi = 0 then
    if c.ebx = 0 then some c else scanText fuel ct { c with esi := c.ebx }
  else scanText fuel ct c

/-! ## Tokens -/

/-- The first token from `i` on, `[j, k)`: over the delimiters, and then up to the next one. -/
def token (d l : List Byte) (i : Nat) : Option (Nat × Nat) :=
  let j := i + ((l.drop i).takeWhile d.contains).length
  if j < l.length then some (j, j + ((l.drop j).takeWhile (!d.contains ·)).length) else none

/-- The delimiter behind a token. -/
def cutOf (l : List Byte) : Option (Nat × Nat) → Option Nat
  | some (_, k) => if k < l.length then some k else none
  | none => none

/-- The tokens for one set of delimiters after the other; the text goes on at `pos`. -/
def tokens (l : List Byte) : Option Nat → List (List Byte) → List (Option (Nat × Nat))
  | _, [] => []
  | pos, d :: ds =>
    let t := pos.bind (token d l)
    t :: tokens l ((cutOf l t).map (· + 1)) ds

/-- The address of a place in the text, or NULL. -/
def address (s : Nat) (pos : Option Nat) : Nat := pos.elim 0 (s + ·)

/-- A call that returns the token `t`: it is terminated in its place, and no other byte is written. -/
structure Answers (s : Nat) (l : List Byte) (t : Option (Nat × Nat)) (c c' : Cpu) : Prop where
  result : c'.ebx = address s (t.map Prod.fst)
  saved  : c'.esi = address s ((cutOf l t).map (· + 1))
  mem    : c'.mem = (cutOf l t).elim c.mem fun k => Function.update c.mem (s + k) 0
  writes : c'.writes = c.writes ++ ((cutOf l t).map (s + ·)).toList
  string : ∀ j k, t = some (j, k) → Str c'.mem (s + j) ((l.drop j).take (k - j))

variable {c c' : Cpu} {fuel s ct saved i j k : Nat} {l d : List Byte}

theorem token_eq (d l : List Byte) (i : Nat) : token d l i =
    let j := i + spanLength true d (l.drop i)
    if j < l.length then some (j, j + spanLength false d (l.drop j)) else none := by
  have htrue : accepts true d = d.contains := funext fun _ => beq_true _
  have hfalse : accepts false d = fun b => !d.contains b := funext fun _ => beq_false _
  unfold token spanLength
  rw [htrue, hfalse]

theorem cutOf_last (j : Nat) : cutOf l (some (j, l.length)) = none := if_neg (Nat.lt_irrefl _)

theorem cutOf_inside (j : Nat) (hk : k < l.length) : cutOf l (some (j, k)) = some k := if_pos hk

theorem cutOf_le {t : Option (Nat × Nat)} (hcut : cutOf l t = some k) : k ≤ l.length := by
  cases t with
  | none => exact nomatch hcut
  | some jk =>
    obtain ⟨j, m⟩ := jk
    by_cases hm : m < l.length
    · rw [cutOf_inside j hm] at hcut
      exact Option.some.inj hcut ▸ Nat.le_of_lt hm
    · rw [cutOf, if_neg hm] at hcut
      exact nomatch hcut

/-- Behind the delimiters is a character that is none. -/
theorem spanLength_pos {l : List Byte} (h : spanLength true d l < l.length) :
    0 < spanLength false d (l.drop (spanLength true d l)) := by
  induction l with
  | nil => exact absurd h (Nat.not_lt_zero _)
  | cons b l ih =>
    rw [spanLength_cons] at h ⊢
    by_cases hin : accepts true d b = true
    · rw [if_pos hin] at h ⊢
      exact ih (Nat.lt_of_succ_lt_succ h)
    · rw [if_neg hin, List.drop_zero, spanLength_cons, if_pos (by simpa [accepts] using hin)]
      exact Nat.succ_pos _

theorem mem_take_true {b : Byte} (hb : b ∈ l.take (spanLength true d l)) : b ∈ d := by
  have hin := accepts_of_mem_take hb
  rw [accepts_true] at hin
  exact of_decide_eq_true hin

/-- A token is not empty and without delimiters; only delimiters are before it, and it ends at one, or
with the text. -/
theorem token_some (hi : i ≤ l.length) (h : token d l i = some (j, k)) : i ≤ j ∧ j < k ∧ k ≤ l.length ∧
    (∀ b ∈ (l.drop i).take (j - i), b ∈ d) ∧ (∀ b ∈ (l.drop j).take (k - j), b ∉ d) ∧ ∀ b, l[k]? = some b → b ∈ d := by
  rw [token_eq] at h
  have hlen : (l.drop i).length = l.length - i := List.length_drop
  by_cases hsome : i + spanLength true d (l.drop i) < l.length
  · rw [if_pos hsome] at h
    obtain ⟨hj, hk⟩ := Prod.mk.inj (Option.some.inj h)
    rw [hj] at hk hsome
    have hle := spanLength_le false d (l.drop j)
    have hpos := spanLength_pos (by omega : spanLength true d (l.drop i) < (l.drop i).length)
    rw [List.drop_drop, hj] at hpos
    rw [List.length_drop] at hle
    refine ⟨by omega, by omega, by omega, fun b hb => ?_, fun b hb => ?_, fun b hb => ?_⟩
    · rw [← hj, Nat.add_sub_cancel_left] at hb
      exact mem_take_true hb
    · rw [← hk, Nat.add_sub_cancel_left] at hb
      have hout := accepts_of_mem_take hb
      rw [accepts_false] at hout
      exact of_decide_eq_true hout
    · rw [← hk, ← List.getElem?_drop] at hb
      have hstop := accepts_stop hb
      rw [accepts_false] at hstop
      exact Decidable.not_not.mp (of_decide_eq_false hstop)
  · rw [if_neg hsome] at h
    exact nomatch h

/-! ## One call -/

theorem Answers.of_eq {c₁ : Cpu} {t : Option (Nat × Nat)} (A : Answers s l t c₁ c') (hmem : c₁.mem = c.mem)
    (hwrites : c₁.writes = c.writes) : Answers s l t c c' :=
  ⟨A.result, A.saved, by rw [A.mem, hmem], by rw [A.writes, hwrites], A.string⟩

/-- What a call leaves of its registers, and the data. -/
structure Kept (c c' : Cpu) : Prop where
  ebx    : c'.ebx = c.ebx
  esi    : c'.esi = c.esi
  mem    : c'.mem = c.mem
  writes : c'.writes = c.writes

theorem checkToken_kept (hpos : 0 < c.ebx) (hchar : c.mem c.ebx ≠ 0) : Kept c (checkToken c) := by
  have hzf := cmpZero_zf hchar
  have hebx : ¬ (c.cmpZero c.ebx).ebx = 0 := Nat.ne_of_gt hpos
  have hchecked : checkToken c = noToken (c.cmpZero c.ebx) := congrArg noToken (if_neg (by simp [hzf]))
  rw [hchecked, noToken, if_neg hebx]
  exact ⟨rfl, rfl, rfl, rfl⟩

theorem noToken_esi (h : c.ebx = 0) : (noToken c).esi = 0 := by
  unfold noToken
  rw [if_pos h]
  exact h

theorem noToken_same (c : Cpu) : Same c (noToken c) := by
  unfold noToken
  split <;> exact ⟨rfl, rfl, rfl, rfl⟩

/-- Nothing is found. -/
theorem answers_none (hebx : c'.ebx = 0) (hmem : c'.mem = c.mem) (hwrites : c'.writes = c.writes) :
    Answers s l none c (noToken c') where
  result := (noToken_same c').ebx.trans hebx
  saved := noToken_esi hebx
  mem := (noToken_same c').mem.trans hmem
  writes := by
    rw [(noToken_same c').writes, hwrites]
    exact (List.append_nil _).symm
  string := fun _ _ h => nomatch h

theorem first_ne {mem : Nat → Byte} (hs : Str mem (s + j) (l.drop j)) (hj : j < l.length) : mem (s + j) ≠ 0 := by
  intro h
  have hend := (hs.char_eq_zero (k := 0) (Nat.zero_le _)).mp h
  rw [List.length_drop] at hend
  omega

/-- The token goes to the end of the text. -/
theorem answers_last (hs : Str c.mem (s + j) (l.drop j)) (hj : j < l.length) (hebx : c'.ebx = s + j) (hesi : c'.esi = 0)
    (hmem : c'.mem = c.mem) (hwrites : c'.writes = c.writes) : Answers s l (some (j, l.length)) c (checkToken c') := by
  have hpos := hs.pos
  have K := checkToken_kept (c := c') (by omega) (by rw [hebx, hmem]; exact first_ne hs hj)
  refine ⟨K.ebx.trans hebx, ?_, ?_, ?_, fun j' k h => ?_⟩
  · rw [cutOf_last]
    exact K.esi.trans hesi
  · rw [cutOf_last]
    exact K.mem.trans hmem
  · rw [cutOf_last, K.writes, hwrites]
    exact (List.append_nil _).symm
  · obtain ⟨rfl, rfl⟩ := Prod.mk.inj (Option.some.inj h)
    rw [K.mem, hmem, List.take_of_length_le (by rw [List.length_drop])]
    exact hs

/-- There is a delimiter behind it. -/
theorem answers_cut (hs : Str c.mem (s + j) (l.drop j)) (hjk : j < k) (hk : k < l.length) (hebx : c'.ebx = s + j)
    (hesi : c'.esi = s + k + 1) (hmem : c'.mem = Function.update c.mem (s + k) 0)
    (hwrites : c'.writes = c.writes ++ [s + k]) : Answers s l (some (j, k)) c (checkToken c') := by
  have hpos := hs.pos
  have K := checkToken_kept (c := c') (by omega)
    (by rw [hebx, hmem, Function.update_of_ne (by omega)]; exact first_ne hs (by omega))
  refine ⟨K.ebx.trans hebx, ?_, ?_, ?_, fun j' k' h => ?_⟩
  · rw [cutOf_inside j hk]
    exact K.esi.trans hesi
  · rw [cutOf_inside j hk]
    exact K.mem.trans hmem
  · rw [cutOf_inside j hk, K.writes]
    exact hwrites
  · obtain ⟨rfl, rfl⟩ := Prod.mk.inj (Option.some.inj h)
    have hcut := hs.cut (k := k - j) (by rw [List.length_drop]; omega)
    have hplace : s + j + (k - j) = s + k := by omega
    rw [hplace] at hcut
    rw [K.mem, hmem]
    exact hcut

/-- From the first character of a token on. -/
theorem endToken_spec (hs : Str c.mem (s + j) (l.drop j)) (hj : j < l.length) (ht : Str c.mem ct d)
    (hedx : c.edx = d.length) (hesi : c.esi = s + j) (hebx : c.ebx = s + j)
    (hpos : 0 < spanLength false d (l.drop j)) (hfuel : l.length < fuel) :
    ∃ c', endToken fuel ct c = some c' ∧ Answers s l (some (j, j + spanLength false d (l.drop j))) c c' := by
  have hlen : (l.drop j).length = l.length - j := List.length_drop
  have hle := spanLength_le false d (l.drop j)
  have htop := hs.top
  obtain ⟨r, hloop, R⟩ := spanLoop_spec false ht hedx (by rw [hesi]; exact hs)
    (show (l.drop j).length < fuel by omega)
  have hebx' : r.2.ebx = s + j := R.ebx.trans hebx
  have hplace := R.esi
  have hfin := R.fin
  unfold endToken
  rw [hloop, Option.map_some]
  generalize hn : spanLength false d (l.drop j) = n at hpos hle hplace hfin ⊢
  by_cases hend : n = (l.drop j).length
  · rw [if_pos (by rw [hfin]; exact decide_eq_true hend), show j + n = l.length by omega]
    exact ⟨_, rfl, answers_last hs hj hebx' rfl R.mem R.writes⟩
  · have hat : r.2.decEsi.esi = s + (j + n) := by
      rw [← Nat.add_assoc, ← hesi]
      exact hplace
    have hchar : r.2.decEsi.mem r.2.decEsi.esi ≠ 0 := by
      show r.2.mem r.2.decEsi.esi ≠ 0
      rw [hat, R.mem, ← Nat.add_assoc]
      exact fun h => hend ((hs.char_eq_zero hle).mp h)
    have hmore := cmpZero_zf hchar
    rw [if_neg (by rw [hfin, decide_eq_false hend]; exact Bool.false_ne_true)]
    refine ⟨_, congrArg some (if_neg (by simp [hmore])), answers_cut hs (by omega) (by omega) hebx' ?_ ?_ ?_⟩
    · show inc r.2.decEsi.esi = _
      rw [hat]
      exact inc_eq (by omega)
    · show Function.update r.2.mem r.2.decEsi.esi 0 = _
      rw [hat, R.mem]
    · show r.2.writes ++ [r.2.decEsi.esi] = _
      rw [hat, R.writes]

/-- A call with the text from `i` on. -/
theorem scanText_spec (hs : Str c.mem (s + i) (l.drop i)) (hi : i ≤ l.length) (ht : Str c.mem ct d) (hne : d ≠ [])
    (hesi : c.esi = s + i) (hfuel : l.length < fuel) :
    ∃ c', scanText fuel ct c = some c' ∧ Answers s l (token d l i) c c' := by
  have hlen : (l.drop i).length = l.length - i := List.length_drop
  have hle := spanLength_le true d (l.drop i)
  have M := setLength_spec (c := { c with ebx := 0, ecx := 2 ^ 32 - 1, eax := 0 }) ht rfl rfl
  unfold scanText
  generalize setLength ct { c with ebx := 0, ecx := 2 ^ 32 - 1, eax := 0 } = c₁ at M ⊢
  have hmem : c₁.mem = c.mem := M.mem
  have hwrites : c₁.writes = c.writes := M.writes
  have hebx : c₁.ebx = 0 := M.ebx
  have hesi₁ : c₁.esi = s + i := M.esi.trans hesi
  rw [if_neg (by simp [M.zf, hne])]
  obtain ⟨r, hloop, R⟩ := spanLoop_spec true (c := { c₁ with edx := c₁.ecx }) (by rw [hmem]; exact ht) M.ecx
    (by rw [hmem, hesi₁]; exact hs) (show (l.drop i).length < fuel by omega)
  have hrmem : r.2.mem = c.mem := R.mem.trans hmem
  have hrwrites : r.2.writes = c.writes := R.writes.trans hwrites
  have hplace : dec r.2.esi = s + i + spanLength true d (l.drop i) := R.esi.trans (congrArg (· + _) hesi₁)
  unfold skipDelimiters
  rw [hloop, Option.bind_some, token_eq]
  by_cases hend : spanLength true d (l.drop i) = (l.drop i).length
  · rw [if_pos (by rw [R.fin]; exact decide_eq_true hend), if_neg (by omega)]
    exact ⟨_, rfl, answers_none (R.ebx.trans hebx) hrmem hrwrites⟩
  · have hpos := spanLength_pos (by omega : spanLength true d (l.drop i) < (l.drop i).length)
    rw [List.drop_drop] at hpos
    have htail := hs.drop hle
    rw [List.drop_drop, Nat.add_assoc] at htail
    have hj : i + spanLength true d (l.drop i) < l.length := by omega
    rw [if_neg (by rw [R.fin, decide_eq_false hend]; exact Bool.false_ne_true), if_pos hj]
    have hat : r.2.decEsi.esi = s + (i + spanLength true d (l.drop i)) := by
      rw [← Nat.add_assoc]
      exact hplace
    have hchar : r.2.decEsi.mem r.2.decEsi.esi ≠ 0 := by
      show r.2.mem r.2.decEsi.esi ≠ 0
      rw [hat, hrmem]
      exact first_ne htail hj
    have hmore := cmpZero_zf hchar
    rw [if_neg (by simp [hmore])]
    obtain ⟨c', hloop', A⟩ := endToken_spec (d := d)
      (c := { r.2.decEsi.cmpZero r.2.decEsi.esi with ebx := r.2.decEsi.esi }) (show Str r.2.mem _ _ by rw [hrmem]; exact htail)
      hj (show Str r.2.mem ct d by rw [hrmem]; exact ht) (R.edx.trans M.ecx) hat hat hpos hfuel
    exact ⟨c', hloop', A.of_eq hrmem hrwrites⟩

/-! ## One call after the other -/

/-- What the next call finds: its argument `s`, `___strtok` and the memory. -/
structure Turn where
  arg   : Nat
  saved : Nat
  mem   : Nat → Byte

/-- Calls for one set of delimiters after the other, the processor before and after each, and the turn
they leave. The first call has its argument, and the others have NULL. The text, of `n` characters at `s`,
is left alone between two calls, and nothing else has to be. -/
inductive Calls (fuel s n : Nat) : Turn → List (List Byte) → List (Cpu × Cpu) → Turn → Prop
  | nil (t : Turn) : Calls fuel s n t [] [] t
  | cons {t t' : Turn} {ct : Nat} {d : List Byte} {ds : List (List Byte)} {c c' : Cpu} {rs : List (Cpu × Cpu)}
      (hkept : ∀ i ≤ n, c.mem (s + i) = t.mem (s + i)) (ht : Str c.mem ct d) (hne : d ≠ [])
      (hcall : strtok fuel t.arg ct t.saved c = some c') (hrest : Calls fuel s n ⟨0, c'.esi, c'.mem⟩ ds rs t') :
      Calls fuel s n t (d :: ds) ((c, c') :: rs) t'

/-- The text goes on at `pos`, and is still there. -/
structure Ready (s : Nat) (l : List Byte) (pos : Option Nat) (t : Turn) : Prop where
  start : (if t.arg = 0 then t.saved else t.arg) = address s pos
  rest  : ∀ i, pos = some i → i ≤ l.length ∧ Str t.mem (s + i) (l.drop i)

variable {t : Turn} {pos : Option Nat}

theorem Ready.kept (R : Ready s l pos t) {mem : Nat → Byte} (hkept : ∀ i ≤ l.length, mem (s + i) = t.mem (s + i)) :
    Ready s l pos { t with mem := mem } := by
  refine ⟨R.start, fun i hi => ?_⟩
  obtain ⟨hle, hstr⟩ := R.rest i hi
  refine ⟨hle, hstr.congr fun k hk => ?_⟩
  rw [List.length_drop] at hk
  rw [Nat.add_assoc]
  exact hkept (i + k) (by omega)

theorem strtok_call (R : Ready s l pos t) (hmem : t.mem = c.mem) (ht : Str c.mem ct d) (hne : d ≠ [])
    (hfuel : l.length < fuel) :
    ∃ c', strtok fuel t.arg ct t.saved c = some c' ∧ Answers s l (pos.bind (token d l)) c c' := by
  have hstart := R.start
  cases pos with
  | none =>
    have harg : t.arg = 0 := by
      by_contra h
      rw [if_neg h] at hstart
      exact h hstart
    rw [if_pos harg] at hstart
    have hsaved : t.saved = 0 := hstart
    refine ⟨{ c with ebx := t.saved, esi := t.arg }, ?_, ⟨hsaved, harg, rfl, (List.append_nil _).symm, fun _ _ h => nomatch h⟩⟩
    unfold strtok
    rw [if_pos harg, if_pos hsaved]
  | some i =>
    obtain ⟨hi, hstr⟩ := R.rest i rfl
    rw [hmem] at hstr
    have hpos := hstr.pos
    have hstart : (if t.arg = 0 then t.saved else t.arg) = s + i := hstart
    have hrun : strtok fuel t.arg ct t.saved c = scanText fuel ct { c with ebx := t.saved, esi := s + i } := by
      unfold strtok
      by_cases harg : t.arg = 0
      · rw [if_pos harg] at hstart ⊢
        rw [if_neg (show ¬ t.saved = 0 by omega)]
        exact congrArg (fun a => scanText fuel ct { c with ebx := t.saved, esi := a }) hstart
      · rw [if_neg harg] at hstart ⊢
        exact congrArg (fun a => scanText fuel ct { c with ebx := t.saved, esi := a }) hstart
    obtain ⟨c', hscan, A⟩ := scanText_spec (c := { c with ebx := t.saved, esi := s + i }) hstr hi ht hne rfl hfuel
    exact ⟨c', hrun.trans hscan, A.of_eq rfl rfl⟩

/-- The cut is in front of what is left. -/
theorem Ready.next (R : Ready s l pos t) (hmem : t.mem = c.mem) (A : Answers s l (pos.bind (token d l)) c c') :
    Ready s l ((cutOf l (pos.bind (token d l))).map (· + 1)) ⟨0, c'.esi, c'.mem⟩ := by
  refine ⟨A.saved, fun m hm => ?_⟩
  have hmem' := A.mem
  cases pos with
  | none => exact nomatch hm
  | some i =>
    obtain ⟨hi, hstr⟩ := R.rest i rfl
    rw [hmem] at hstr
    simp only [Option.bind_some] at hm hmem'
    cases htoken : token d l i with
    | none =>
      rw [htoken] at hm
      exact nomatch hm
    | some jk =>
      obtain ⟨j, k⟩ := jk
      obtain ⟨hij, hjk, -⟩ := token_some hi htoken
      rw [htoken] at hm hmem'
      by_cases hk : k < l.length
      · rw [cutOf_inside j hk] at hm hmem'
        obtain rfl : k + 1 = m := Option.some.inj hm
        have hrest := hstr.drop (j := k + 1 - i) (by rw [List.length_drop]; omega)
        rw [List.drop_drop, Nat.add_assoc, Nat.add_sub_cancel' (by omega)] at hrest
        refine ⟨hk, hrest.congr fun n _ => ?_⟩
        show c'.mem _ = _
        rw [hmem']
        exact Function.update_of_ne (by omega) ..
      · rw [cutOf, if_neg hk] at hm
        exact nomatch hm

/-- Any number of calls, from any turn on. -/
theorem Calls.tokens {ds : List (List Byte)} {rs : List (Cpu × Cpu)} {t' : Turn}
    (hrun : Calls fuel s l.length t ds rs t') (R : Ready s l pos t) (hfuel : l.length < fuel) :
    List.Forall₂ (fun tok r => Answers s l tok r.1 r.2) (tokens l pos ds) rs ∧
      (∀ i ≤ l.length, t'.mem (s + i) = if i ∈ (tokens l pos ds).filterMap (cutOf l) then 0 else t.mem (s + i)) ∧
      ∃ pos', Ready s l pos' t' := by
  induction hrun generalizing pos with
  | nil t => exact ⟨.nil, fun i _ => rfl, pos, R⟩
  | @cons t t' ct d ds c c' rs hkept ht hne hcall hrest ih =>
    have R₁ := R.kept hkept
    obtain ⟨c₁, hcall₁, A⟩ := strtok_call R₁ rfl ht hne hfuel
    obtain rfl : c₁ = c' := Option.some.inj (hcall₁.symm.trans hcall)
    obtain ⟨hanswers, hmem, hready⟩ := ih (R₁.next rfl A)
    refine ⟨.cons A hanswers, fun i hi => ?_, hready⟩
    rw [hmem i hi, tokens, List.filterMap_cons]
    have hafter := A.mem
    generalize cutOf l (pos.bind (token d l)) = cut at hafter ⊢
    cases cut with
    | none =>
      show (if _ then 0 else c₁.mem (s + i)) = _
      rw [hafter]
      exact if_congr Iff.rfl rfl (hkept i hi)
    | some k =>
      show (if _ then 0 else c₁.mem (s + i)) = _
      rw [hafter, Option.elim_some, Function.update_apply]
      by_cases hcut : i = k
      · rw [if_pos (congrArg (s + ·) hcut), ite_self, if_pos (hcut ▸ List.mem_cons_self)]
      · have hother : ∀ ks : List Nat, i ∈ k :: ks ↔ i ∈ ks := fun ks =>
          List.mem_cons.trans (or_iff_right hcut)
        have hplace : ¬ s + i = s + k := by omega
        rw [if_neg hplace, hkept i hi]
        exact if_congr (hother _).symm rfl rfl

theorem ready_start {mem : Nat → Byte} (hs : Str mem s l) (saved : Nat) : Ready s l (some 0) ⟨s, saved, mem⟩ :=
  ⟨if_neg (Nat.ne_of_gt hs.pos), fun i hi => by
    obtain rfl : 0 = i := Option.some.inj hi
    exact ⟨Nat.zero_le _, hs⟩⟩

/-- The calls for a text return its tokens, one after the other, and then NULL; the text is as it was,
with a terminator for each delimiter that ends a token. The next call returns, too. -/
theorem strtok_tokens {mem : Nat → Byte} {ds : List (List Byte)} {rs : List (Cpu × Cpu)} {t' : Turn}
    (hs : Str mem s l) (hfuel : l.length < fuel) (hrun : Calls fuel s l.length ⟨s, saved, mem⟩ ds rs t') :
    List.Forall₂ (fun tok r => Answers s l tok r.1 r.2) (tokens l (some 0) ds) rs ∧
      (∀ i ≤ l.length, t'.mem (s + i) = if i ∈ (tokens l (some 0) ds).filterMap (cutOf l) then 0 else mem (s + i)) ∧
      ∀ (c : Cpu) (ct : Nat) (d : List Byte), (∀ i ≤ l.length, c.mem (s + i) = t'.mem (s + i)) → Str c.mem ct d →
        d ≠ [] → ∃ c', strtok fuel t'.arg ct t'.saved c = some c' := by
  obtain ⟨hanswers, hmem, pos', hready⟩ := hrun.tokens (ready_start hs saved) hfuel
  refine ⟨hanswers, hmem, fun c ct d hkept ht hne => ?_⟩
  obtain ⟨c', hcall, -⟩ := strtok_call (hready.kept hkept) rfl ht hne hfuel
  exact ⟨c', hcall⟩

/-- With the delimiters apart from the text, and the same ones in each call, there is a run of any number
of calls. -/
theorem calls_of (n : Nat) (R : Ready s l pos t) (ht : Str t.mem ct d) (hne : d ≠ []) (hfuel : l.length < fuel)
    (hapart : ∀ i ≤ l.length, ∀ k ≤ d.length, ct + k ≠ s + i) :
    ∃ rs t', Calls fuel s l.length t (List.replicate n d) rs t' := by
  induction n generalizing pos t with
  | zero => exact ⟨[], t, .nil t⟩
  | succ n ih =>
    obtain ⟨c', hcall, A⟩ := strtok_call (c := .fresh t.mem) R rfl ht hne hfuel
    have ht' : Str c'.mem ct d := ht.congr fun k hk => by
      rw [A.mem]
      cases hcut : cutOf l (pos.bind (token d l)) with
      | none => rfl
      | some i => exact Function.update_of_ne (hapart i (cutOf_le hcut) k hk) ..
    obtain ⟨rs, t', hrest⟩ := ih (R.next rfl A) ht'
    exact ⟨_, t', .cons (fun _ _ => rfl) ht hne hcall hrest⟩

/-- "a bc" at 16, and " " at 32. -/
def wordsMem (a : Nat) : Byte :=
  if a = 16 then 0x61 else if a = 17 ∨ a = 32 then 0x20 else if a = 18 then 0x62 else if a = 19 then 0x63 else 0

/-- Three calls for "a bc" and the delimiter " ": "a", "bc", and NULL. The space is overwritten. -/
theorem strtok_words : ∃ rs t', Calls 5 16 4 ⟨16, 0, wordsMem⟩ [[0x20], [0x20], [0x20]] rs t' ∧
    List.Forall₂ (fun tok r => Answers 16 [0x61, 0x20, 0x62, 0x63] tok r.1 r.2) [some (0, 1), some (2, 4), none] rs ∧
    t'.mem 17 = 0 ∧ t'.mem 18 = 0x62 := by
  have hs : Str wordsMem 16 [0x61, 0x20, 0x62, 0x63] := by decide
  have ht : Str wordsMem 32 [0x20] := by decide
  obtain ⟨rs, t', hrun⟩ := calls_of 3 (ready_start hs 0) ht (by decide) (show 4 < 5 by decide) (by decide)
  obtain ⟨hanswers, hmem, -⟩ := strtok_tokens hs (show 4 < 5 by decide) hrun
  exact ⟨rs, t', hrun, hanswers, hmem 1 (by decide), hmem 2 (by decide)⟩

end Linux011.Include
