import Linux011.Fs.ArgPages

/-!
# The stack of a new program — `create_tables` of `fs/exec.c`

The data segment of the new program as it reads it, and what `do_execve` writes
into it: the pointer tables below the strings, and zeros from the end of the data
to the end of that page.  A page that is not there is brought in by a fault, with
whatever it holds; beyond the limit a store does not come back.

* `createTables_spec` — the words below the strings, found by looking for the
  terminators;
* `clearBss_spec` — the bytes that are cleared;
* `starts_iff` — the stack is right afterwards exactly when only zeros of it have
  been cleared.
-/

namespace Linux011.Fs.ExecStack

open Linux011.Lib Linux011.Mm
open Linux011.Fs.ArgPages (withNul packed)

abbrev Word := BitVec 32

/-- What is read at each offset. -/
abbrev User := Nat → Byte

/-- The limit of the data segment. -/
def dataEnd : Nat := 0x4000000

def putFsByte (m : User) (b : Byte) (addr : Word) : Option User :=
  if addr.toNat < dataEnd then some (Function.update m addr.toNat b) else none

def putFsLong (m : User) (w addr : Word) : Option User :=
  if addr.toNat + 3 < dataEnd then
    some fun q => if addr.toNat ≤ q ∧ q < addr.toNat + 4 then getByte w (q - addr.toNat) else m q
  else none

def getFsByte (m : User) (addr : Word) : Option Byte :=
  if addr.toNat < dataEnd then some (m addr.toNat) else none

/-- `while (get_fs_byte(p++)) ;`, which the limit ends. -/
def skip (m : User) : Nat → Word → Option Word
  | 0, _ => none
  | n + 1, p => do
    let c ← getFsByte m p
    if c = 0 then some (p + 1) else skip m n (p + 1)

/-- A pointer to each string: the memory, `p` and the place behind the last pointer. -/
def putPointers : Nat → User → Word → Word → Option (User × Word × Word)
  | 0, m, p, table => some (m, p, table)
  | n + 1, m, p, table => do
    let m ← putFsLong m p table
    let p ← skip m dataEnd p
    putPointers n m p (table + 4)

/-- `create_tables`. -/
def createTables (m : User) (p : Word) (argc envc : Int) : Option (User × Word) := do
  let sp := 0xfffffffc &&& p
  let sp := sp - 4 * BitVec.ofInt 32 (envc + 1)
  let envp := sp
  let sp := sp - 4 * BitVec.ofInt 32 (argc + 1)
  let argv := sp
  let sp := sp - 4
  let m ← putFsLong m envp sp
  let sp := sp - 4
  let m ← putFsLong m argv sp
  let sp := sp - 4
  let m ← putFsLong m (BitVec.ofInt 32 argc) sp
  let (m, p, argv) ← putPointers argc.toNat m p argv
  let m ← putFsLong m 0 argv
  let (m, _, envp) ← putPointers envc.toNat m p envp
  let m ← putFsLong m 0 envp
  return (m, sp)

/-- `while (i&0xfff) put_fs_byte(0, i++)`: there are no more rounds than bytes in a page. -/
def clearBss : Nat → User → Word → Option User
  | 0, m, _ => some m
  | n + 1, m, i =>
    if i &&& 0xfff = 0 then some m
    else do
      let m ← putFsByte m 0 i
      clearBss n m (i + 1)

/-! ## Bytes and longs -/

/-- The long at an offset. -/
def longAt (m : User) (q : Nat) : Word := m (q + 3) ++ m (q + 2) ++ m (q + 1) ++ m q

/-- The bytes from an offset on. -/
def Holds (m : User) (q : Nat) (bs : List Byte) : Prop := ∀ k (hk : k < bs.length), m (q + k) = bs[k]

variable {m m' : User} {q : Nat} {strs argv envp : List (List Byte)} {p sp table : Word}

theorem holds_append {a b : List Byte} :
    Holds m q (a ++ b) ↔ Holds m q a ∧ Holds m (q + a.length) b := by
  constructor
  · intro h
    constructor
    · intro k hk
      rw [h k (by rw [List.length_append]; omega), List.getElem_append_left hk]
    · intro k hk
      rw [Nat.add_assoc, h (a.length + k) (by rw [List.length_append]; omega),
        List.getElem_append_right (by omega)]
      simp
  · intro ⟨ha, hb⟩ k hk
    rw [List.length_append] at hk
    by_cases hka : k < a.length
    · rw [List.getElem_append_left hka]
      exact ha k hka
    · rw [List.getElem_append_right (by omega), ← hb (k - a.length) (by omega)]
      congr 1
      omega

theorem longAt_eq {w : Word} : longAt m q = w ↔ ∀ j < 4, m (q + j) = getByte w j := by
  have hbyte : ∀ j < 4, getByte (longAt m q) j = m (q + j) := fun j hj =>
    getByte_bytes (fun j => m (q + j)) hj
  constructor
  · rintro rfl j hj
    exact (hbyte j hj).symm
  · intro h
    apply BitVec.eq_of_getLsbD_eq
    intro i hi
    -- bit `i` is bit `i % 8` of byte `i / 8`
    have hsame : getByte (longAt m q) (i / 8) = getByte w (i / 8) := by
      rw [hbyte _ (by omega), h _ (by omega)]
    have hbit := congrArg (fun b : Byte => b.getLsbD (i % 8)) hsame
    unfold getByte at hbit
    have hmod : i % 8 < 8 := Nat.mod_lt _ (by decide)
    have hidx : 8 * (i / 8) + i % 8 = i := by omega
    simpa only [BitVec.getLsbD_extractLsb', hmod, decide_true, Bool.true_and, hidx] using hbit

theorem putFsLong_spec {w addr : Word} (h : putFsLong m w addr = some m') :
    addr.toNat + 3 < dataEnd ∧ longAt m' addr.toNat = w ∧
      ∀ q, (q < addr.toNat ∨ addr.toNat + 4 ≤ q) → m' q = m q := by
  unfold putFsLong at h
  split at h
  · next hlt =>
    cases h
    refine ⟨hlt, longAt_eq.mpr fun j hj => ?_, fun q hq => if_neg (by omega)⟩
    rw [if_pos (by omega)]
    congr 1
    omega
  · cases h

theorem longAt_congr (h : ∀ j < 4, m' (q + j) = m (q + j)) : longAt m' q = longAt m q := by
  rw [longAt_eq]
  intro j hj
  rw [h j hj]
  exact longAt_eq.mp rfl j hj

theorem Holds.congr {bs : List Byte} (h : Holds m q bs)
    (hsame : ∀ k < bs.length, m' (q + k) = m (q + k)) : Holds m' q bs := by
  intro k hk
  rw [hsame k hk]
  exact h k hk

/-! ## Looking for the terminators -/

theorem add_one_toNat {w : Word} (h : w.toNat + 1 < 2 ^ 32) : (w + 1).toNat = w.toNat + 1 := by
  rw [BitVec.toNat_add]
  simp
  omega

/-- `p` goes behind the terminator. -/
theorem skip_spec {s : List Byte} (hs : (0 : Byte) ∉ s) :
    ∀ {n : Nat} {p : Word}, s.length < n → p.toNat + s.length < dataEnd →
      Holds m p.toNat (withNul s) →
      ∃ p', skip m n p = some p' ∧ p'.toNat = p.toNat + (withNul s).length := by
  unfold dataEnd
  induction s with
  | nil =>
    intro n p hn hend h
    have hzero : m p.toNat = 0 := h 0 (by simp [withNul])
    obtain ⟨n, rfl⟩ : ∃ n', n = n' + 1 := ⟨n - 1, by omega⟩
    refine ⟨p + 1, ?_, ?_⟩
    · have hlt : p.toNat < dataEnd := hend
      simp [skip, getFsByte, hlt, hzero]
    · rw [add_one_toNat (by omega)]
      rfl
  | cons c s ih =>
    intro n p hn hend h
    rw [List.length_cons] at hn hend
    obtain ⟨n, rfl⟩ : ∃ n', n = n' + 1 := ⟨n - 1, by omega⟩
    have hnext : (p + 1).toNat = p.toNat + 1 := add_one_toNat (by omega)
    have hc : m p.toNat = c := h 0 (by simp [withNul])
    have hc0 : c ≠ 0 := fun h0 => hs (by rw [h0]; exact List.mem_cons_self)
    have hrest : Holds m (p + 1).toNat (withNul s) := by
      have hsplit : withNul (c :: s) = [c] ++ withNul s := rfl
      rw [hsplit, holds_append] at h
      rw [hnext]
      exact h.2
    obtain ⟨p', hp', hto⟩ := ih (fun h0 => hs (List.mem_cons_of_mem c h0)) (n := n) (p := p + 1)
      (by omega) (by omega) hrest
    refine ⟨p', ?_, ?_⟩
    · have hlt : p.toNat < dataEnd := by unfold dataEnd; omega
      have hget : getFsByte m p = some c := by
        unfold getFsByte
        rw [if_pos hlt, hc]
      rw [skip, hget]
      show (if c = 0 then some (p + 1) else skip m n (p + 1)) = some p'
      rw [if_neg hc0, hp']
    · rw [hto, hnext]
      simp [withNul]
      omega

/-- The pointers, with the places they are put at. -/
def pointersAt : Nat → Nat → List (List Byte) → List (Nat × Word)
  | _, _, [] => []
  | table, p, s :: strs => (table, BitVec.ofNat 32 p) :: pointersAt (table + 4) (p + (withNul s).length) strs

theorem packed_cons (s : List Byte) : packed (s :: strs) = withNul s ++ packed strs := by
  unfold packed
  rw [List.map_cons, List.flatten_cons]

theorem packed_append (a b : List (List Byte)) : packed (a ++ b) = packed a ++ packed b := by
  unfold packed
  rw [List.map_append, List.flatten_append]

theorem pointersAt_range {t b : Nat} {x : Nat × Word} (hx : x ∈ pointersAt t b strs) :
    t ≤ x.1 ∧ x.1 + 4 ≤ t + 4 * strs.length := by
  induction strs generalizing t b with
  | nil => cases hx
  | cons s strs ih =>
    rw [List.length_cons]
    rcases List.mem_cons.mp hx with rfl | hx
    · dsimp only
      omega
    · have := ih hx
      omega

/-- What has been put from `lo` to `hi`, word by word, and nothing else. -/
structure Put (m₀ m : User) (lo hi : Nat) (ws : List (Nat × Word)) : Prop where
  words : ∀ x ∈ ws, longAt m x.1 = x.2
  range : ∀ x ∈ ws, lo ≤ x.1 ∧ x.1 + 4 ≤ hi
  frame : ∀ q, (q < lo ∨ hi ≤ q) → m q = m₀ q

variable {m₀ : User} {lo hi : Nat} {ws : List (Nat × Word)}

theorem Put.nil (m : User) (q : Nat) : Put m m q q [] :=
  ⟨fun _ hx => absurd hx (by simp), fun _ hx => absurd hx (by simp), fun _ _ => rfl⟩

/-- A word outside leaves the others. -/
theorem Put.keep (h : Put m₀ m lo hi ws) {w addr : Word} (hm : putFsLong m w addr = some m')
    (hout : addr.toNat + 4 ≤ lo ∨ hi ≤ addr.toNat) : ∀ x ∈ ws, longAt m' x.1 = x.2 := by
  obtain ⟨-, -, hframe⟩ := putFsLong_spec hm
  intro x hx
  have hin := h.range x hx
  rw [longAt_congr fun j hj => hframe _ (by omega)]
  exact h.words x hx

/-- The word below. -/
theorem Put.down (h : Put m₀ m lo hi ws) {w addr : Word} (hm : putFsLong m w addr = some m')
    (hat : addr.toNat + 4 = lo) (hle : lo ≤ hi) : Put m₀ m' addr.toNat hi ((addr.toNat, w) :: ws) := by
  obtain ⟨-, hword, hframe⟩ := putFsLong_spec hm
  refine ⟨fun x hx => ?_, fun x hx => ?_, fun q hq => ?_⟩
  · rcases List.mem_cons.mp hx with rfl | hx
    · exact hword
    · exact h.keep hm (Or.inl (by omega)) x hx
  · rcases List.mem_cons.mp hx with rfl | hx
    · exact ⟨Nat.le_refl _, by omega⟩
    · have := h.range x hx
      omega
  · rw [hframe q (by omega)]
    exact h.frame q (by omega)

/-- The word above. -/
theorem Put.up (h : Put m₀ m lo hi ws) {w addr : Word} (hm : putFsLong m w addr = some m')
    (hat : addr.toNat = hi) (hle : lo ≤ hi) : Put m₀ m' lo (hi + 4) (ws ++ [(hi, w)]) := by
  obtain ⟨-, hword, hframe⟩ := putFsLong_spec hm
  rw [hat] at hword hframe
  refine ⟨fun x hx => ?_, fun x hx => ?_, fun q hq => ?_⟩
  · rcases List.mem_append.mp hx with hx | hx
    · exact h.keep hm (Or.inr (by omega)) x hx
    · rw [List.mem_singleton.mp hx]
      exact hword
  · rcases List.mem_append.mp hx with hx | hx
    · have := h.range x hx
      omega
    · rw [List.mem_singleton.mp hx]
      exact ⟨hle, Nat.le_refl _⟩
  · rw [hframe q (by omega)]
    exact h.frame q (by omega)

theorem putFsLong_some (m : User) (w addr : Word) (h : addr.toNat + 3 < dataEnd) :
    ∃ m', putFsLong m w addr = some m' := by
  unfold putFsLong
  rw [if_pos h]
  exact ⟨_, rfl⟩

/-- **The loop over the strings**: the table gets a pointer to each. -/
theorem putPointers_spec {strs : List (List Byte)} (hs : ∀ s ∈ strs, (0 : Byte) ∉ s) :
    ∀ (m : User) (p table : Word) (ws : List (Nat × Word)), Put m₀ m lo table.toNat ws →
      lo ≤ table.toNat → table.toNat + 4 * strs.length ≤ p.toNat →
      p.toNat + (packed strs).length ≤ dataEnd → Holds m₀ p.toNat (packed strs) →
      ∃ m' p' table', putPointers strs.length m p table = some (m', p', table') ∧
        p'.toNat = p.toNat + (packed strs).length ∧ table'.toNat = table.toNat + 4 * strs.length ∧
        Put m₀ m' lo table'.toNat (ws ++ pointersAt table.toNat p.toNat strs) := by
  have hend : dataEnd = 0x4000000 := rfl
  induction strs with
  | nil =>
    intro m p table ws hput _ _ _ _
    refine ⟨m, p, table, rfl, rfl, rfl, ?_⟩
    rw [pointersAt, List.append_nil]
    exact hput
  | cons s strs ih =>
    intro m p table ws hput hlo hbelow hfit hold
    rw [List.length_cons] at hbelow ⊢
    rw [packed_cons, List.length_append] at hfit ⊢
    rw [packed_cons, holds_append] at hold
    have hnul : (withNul s).length = s.length + 1 := by simp [withNul]
    obtain ⟨m1, hm1⟩ := putFsLong_some m p table (by omega)
    have hput1 := hput.up hm1 rfl hlo
    have htable : (table + 4).toNat = table.toNat + 4 := by
      rw [BitVec.toNat_add]
      simp
      omega
    rw [← htable] at hput1
    obtain ⟨p1, hp1, hto1⟩ := skip_spec (hs s List.mem_cons_self) (m := m1) (n := dataEnd) (p := p)
      (by omega) (by omega) (hold.1.congr fun k _ => hput1.frame _ (by omega))
    obtain ⟨m2, p2, t2, hrun, hp2, ht2, hput2⟩ :=
      ih (fun s h => hs s (List.mem_cons_of_mem _ h)) m1 p1 (table + 4) _ hput1 (by omega) (by omega)
        (by omega) (by rw [hto1]; exact hold.2)
    refine ⟨m2, p2, t2, ?_, by omega, by omega, ?_⟩
    · simp only [putPointers, hm1, hp1, hrun, Option.bind_eq_bind, Option.bind_some]
    · have hptr : BitVec.ofNat 32 p.toNat = p := by simp
      rw [htable, hto1, List.append_assoc, List.singleton_append] at hput2
      rw [pointersAt, hptr]
      exact hput2

/-! ## create_tables -/

/-- The words below the strings at `p`: `argc`, `argv`, `envp`, and the two tables. -/
def tableWords (sp p : Nat) (argv envp : List (List Byte)) : List (Nat × Word) :=
  [(sp, BitVec.ofNat 32 argv.length), (sp + 4, BitVec.ofNat 32 (sp + 12)),
    (sp + 8, BitVec.ofNat 32 (sp + 12 + 4 * (argv.length + 1)))] ++
  pointersAt (sp + 12) p argv ++ [(sp + 12 + 4 * argv.length, 0)] ++
  pointersAt (sp + 12 + 4 * (argv.length + 1)) (p + (packed argv).length) envp ++
  [(sp + 12 + 4 * (argv.length + 1) + 4 * envp.length, 0)]

/-- The stack pointer. -/
def stackAt (p : Nat) (argv envp : List (List Byte)) : Nat :=
  p / 4 * 4 - 4 * (envp.length + 1) - 4 * (argv.length + 1) - 12

theorem align_toNat (w : Word) : (0xfffffffc &&& w).toNat = w.toNat / 4 * 4 := by
  have hmask : (0xfffffffc &&& w : Word) = w >>> 2 <<< 2 := by
    rw [BitVec.shiftLeft_ushiftRight, BitVec.and_comm]
    rfl
  have := w.isLt
  rw [hmask, BitVec.toNat_shiftLeft, BitVec.toNat_ushiftRight, Nat.shiftRight_eq_div_pow,
    Nat.shiftLeft_eq]
  omega

theorem sub_words {w : Word} {n : Nat} (h : 4 * (n + 1) ≤ w.toNat) :
    (w - 4 * BitVec.ofInt 32 ((n : Int) + 1)).toNat + 4 * (n + 1) = w.toNat := by
  have hlt := w.isLt
  have hcast : ((n : Int) + 1) = ((n + 1 : Nat) : Int) := by omega
  have hmul : (4 * BitVec.ofInt 32 ((n : Int) + 1) : Word).toNat = 4 * (n + 1) := by
    rw [hcast, BitVec.ofInt_natCast, BitVec.toNat_mul, BitVec.toNat_ofNat]
    simp
    omega
  rw [BitVec.toNat_sub_of_le (BitVec.le_def.mpr (by omega)), hmul, Nat.sub_add_cancel h]

theorem sub_four {w : Word} (h : 4 ≤ w.toNat) : (w - 4).toNat + 4 = w.toNat := by
  rw [BitVec.toNat_sub_of_le (BitVec.le_def.mpr (show (4 : Word).toNat ≤ w.toNat from h))]
  exact Nat.sub_add_cancel h

/-- **`create_tables`** writes the words below the strings, and nothing else. -/
theorem createTables_spec (hs : ∀ s ∈ argv ++ envp, (0 : Byte) ∉ s)
    (hroom : 4 * (argv.length + envp.length + 6) ≤ p.toNat)
    (hfit : p.toNat + (packed (argv ++ envp)).length ≤ dataEnd)
    (hold : Holds m p.toNat (packed (argv ++ envp))) :
    ∃ m' sp, createTables m p argv.length envp.length = some (m', sp) ∧
      sp.toNat = stackAt p.toNat argv envp ∧
      (∀ x ∈ tableWords sp.toNat p.toNat argv envp, longAt m' x.1 = x.2) ∧
      ∀ q, (q < sp.toNat ∨ p.toNat / 4 * 4 ≤ q) → m' q = m q := by
  have hend : dataEnd = 0x4000000 := rfl
  rw [packed_append, List.length_append] at hfit
  rw [packed_append, holds_append] at hold
  -- the pointers
  unfold stackAt
  have htop := align_toNat p
  have hp0 : p.toNat / 4 * 4 ≤ p.toNat := Nat.div_mul_le_self _ 4
  have hbelow : 4 * (argv.length + envp.length + 5) ≤ p.toNat / 4 * 4 := by omega
  clear hroom
  generalize p.toNat / 4 * 4 = top at htop hp0 hbelow ⊢
  have henvT := sub_words (w := 0xfffffffc &&& p) (n := envp.length) (by omega)
  generalize henvEq : (0xfffffffc &&& p : Word) - 4 * BitVec.ofInt 32 ((envp.length : Int) + 1) = envT at henvT
  rw [htop] at henvT
  have hargT := sub_words (w := envT) (n := argv.length) (by omega)
  generalize hargEq : envT - 4 * BitVec.ofInt 32 ((argv.length : Int) + 1) = argT at hargT
  have henvp := sub_four (w := argT) (by omega)
  have hargv := sub_four (w := argT - 4) (by omega)
  have hargc := sub_four (w := argT - 4 - 4) (by omega)
  clear htop hbelow
  have hstart := Put.nil m argT.toNat
  -- the three words
  obtain ⟨m1, hm1⟩ := putFsLong_some m envT (argT - 4) (by omega)
  have hput1 := hstart.down hm1 (by omega) (Nat.le_refl _)
  obtain ⟨m2, hm2⟩ := putFsLong_some m1 argT (argT - 4 - 4) (by omega)
  have hput2 := hput1.down hm2 (by omega) (by omega)
  obtain ⟨m3, hm3⟩ := putFsLong_some m2 (BitVec.ofInt 32 argv.length) (argT - 4 - 4 - 4) (by omega)
  have hput3 := hput2.down hm3 (by omega) (by omega)
  -- the tables
  obtain ⟨m4, p4, t4, hm4, hp4, ht4, hput4⟩ :=
    putPointers_spec (fun s h => hs s (List.mem_append_left _ h)) m3 p argT _ hput3
      (by omega) (by omega) (by omega) hold.1
  obtain ⟨m5, hm5⟩ := putFsLong_some m4 0 t4 (by omega)
  have hput5 := hput4.up hm5 rfl (by omega)
  have henv : t4.toNat + 4 = envT.toNat := by omega
  rw [henv] at hput5
  obtain ⟨m6, p6, t6, hm6, hp6, ht6, hput6⟩ :=
    putPointers_spec (fun s h => hs s (List.mem_append_right _ h)) m5 p4 envT _ hput5
      (by omega) (by omega) (by omega) (by rw [hp4]; exact hold.2)
  obtain ⟨m7, hm7⟩ := putFsLong_some m6 0 t6 (by omega)
  have hput7 := hput6.up hm7 rfl (by omega)
  refine ⟨m7, argT - 4 - 4 - 4, ?_, ?_, ?_, fun q hq => hput7.frame q (by omega)⟩
  · unfold createTables
    simp only [henvEq, hargEq, hm1, hm2, hm3, hm4, hm5, hm6, hm7, Int.toNat_natCast,
      Option.bind_eq_bind, Option.bind_some, Option.pure_def]
  · omega
  · have hto12 : (argT - 4 - 4 - 4).toNat + 12 = argT.toNat := by omega
    have hto8 : (argT - 4 - 4 - 4).toNat + 8 = (argT - 4).toNat := by omega
    have hcount : BitVec.ofInt 32 argv.length = BitVec.ofNat 32 argv.length := BitVec.ofInt_natCast _ _
    have hlist : tableWords (argT - 4 - 4 - 4).toNat p.toNat argv envp =
        [((argT - 4 - 4 - 4).toNat, BitVec.ofInt 32 argv.length), ((argT - 4 - 4).toNat, argT),
          ((argT - 4).toNat, envT)] ++ pointersAt argT.toNat p.toNat argv ++ [(t4.toNat, 0)] ++
        pointersAt envT.toNat p4.toNat envp ++ [(t6.toNat, 0)] := by
      unfold tableWords
      rw [hto12, hto8, hargc, hargT, ← ht4, ← hp4, ← ht6, hcount, BitVec.ofNat_toNat, BitVec.ofNat_toNat,
        BitVec.setWidth_eq, BitVec.setWidth_eq]
    rw [hlist]
    exact hput7.words

/-! ## The end of the data -/

/-- The bytes from `i` to the end of its page. -/
def Cleared (i q : Nat) : Prop := i ≤ q ∧ q < 4096 * ((i + 4095) / 4096)

theorem and_fff_eq {w : Word} : w &&& 0xfff = 0 ↔ w.toNat % 4096 = 0 := by
  have hmod : (w &&& 0xfff).toNat = w.toNat % 4096 := by
    rw [BitVec.toNat_and]
    exact Nat.and_two_pow_sub_one_eq_mod w.toNat 12
  rw [← hmod, ← BitVec.toNat_inj]
  rfl

/-- **The loop behind the data** clears those bytes, if it comes back. -/
theorem clearBss_spec {n : Nat} :
    ∀ {m m' : User} {i : Word}, 4096 * ((i.toNat + 4095) / 4096) ≤ i.toNat + n →
      clearBss n m i = some m' →
      ∀ q, (Cleared i.toNat q → m' q = 0) ∧ (¬ Cleared i.toNat q → m' q = m q) := by
  induction n with
  | zero =>
    intro m m' i hn h q
    cases h
    refine ⟨fun hq => ?_, fun _ => rfl⟩
    unfold Cleared at hq
    omega
  | succ n ih =>
    intro m m' i hn h q
    rw [clearBss] at h
    split at h
    · next hstop =>
      rw [and_fff_eq] at hstop
      cases h
      refine ⟨fun hq => ?_, fun _ => rfl⟩
      unfold Cleared at hq
      omega
    · next hgo =>
      rw [and_fff_eq] at hgo
      unfold putFsByte at h
      split at h
      · next hlt =>
        have hnext : (i + 1).toNat = i.toNat + 1 := by
          unfold dataEnd at hlt
          exact add_one_toNat (by clear hn; omega)
        have hrest := ih (by rw [hnext]; omega) h q
        rw [hnext] at hrest
        unfold Cleared at hrest ⊢
        by_cases hq : q = i.toNat
        · subst hq
          refine ⟨fun _ => ?_, fun hout => absurd (by omega) hout⟩
          rw [hrest.2 (by omega), Function.update_self]
        · refine ⟨fun hin => hrest.1 (by omega), fun hout => ?_⟩
          rw [hrest.2 (by omega), Function.update_of_ne hq]
      · cases h

/-! ## The stack -/

/-- Where string `i` lies. -/
def stringAt (q : Nat) (strs : List (List Byte)) (i : Nat) : Nat := q + (packed (strs.take i)).length

theorem stringAt_succ (q : Nat) (s : List Byte) (strs : List (List Byte)) (i : Nat) :
    stringAt q (s :: strs) (i + 1) = stringAt (q + (withNul s).length) strs i := by
  unfold stringAt
  rw [List.take_succ_cons, packed_cons, List.length_append]
  omega

/-- **The stack of a new program**: at `sp`, which is a multiple of 4, lie `argc`, `argv`
and `envp`; these point to tables that end with NULL; every entry points to a copy of its
string; and the words, the tables and the strings, which begin at `p`, follow each other
without overlap up to the end of the segment. -/
structure Starts (m : User) (sp p : Nat) (argv envp : List (List Byte)) : Prop where
  aligned : sp % 4 = 0
  argc    : longAt m sp = BitVec.ofNat 32 argv.length
  argvPtr : longAt m (sp + 4) = BitVec.ofNat 32 (sp + 12)
  envpPtr : longAt m (sp + 8) = BitVec.ofNat 32 (sp + 12 + 4 * (argv.length + 1))
  args    : ∀ i (hi : i < argv.length),
    longAt m (sp + 12 + 4 * i) = BitVec.ofNat 32 (stringAt p argv i) ∧
      Holds m (stringAt p argv i) (withNul argv[i])
  argsEnd : longAt m (sp + 12 + 4 * argv.length) = 0
  envs    : ∀ i (hi : i < envp.length),
    longAt m (sp + 12 + 4 * (argv.length + 1) + 4 * i) =
        BitVec.ofNat 32 (stringAt (p + (packed argv).length) envp i) ∧
      Holds m (stringAt (p + (packed argv).length) envp i) (withNul envp[i])
  envsEnd : longAt m (sp + 12 + 4 * (argv.length + 1) + 4 * envp.length) = 0
  below   : sp + 12 + 4 * (argv.length + 1) + 4 * (envp.length + 1) ≤ p
  inside  : p + (packed (argv ++ envp)).length ≤ dataEnd

theorem mem_pointersAt {t b : Nat} {x : Nat × Word} : x ∈ pointersAt t b strs ↔
    ∃ i < strs.length, x = (t + 4 * i, BitVec.ofNat 32 (stringAt b strs i)) := by
  induction strs generalizing t b with
  | nil =>
    constructor
    · intro h
      cases h
    · intro ⟨i, hi, _⟩
      exact absurd hi (by simp)
  | cons s strs ih =>
    have hplace : ∀ i, t + 4 * (i + 1) = t + 4 + 4 * i := fun i => by omega
    rw [pointersAt, List.mem_cons, ih]
    constructor
    · rintro (rfl | ⟨i, hi, rfl⟩)
      · exact ⟨0, by simp, rfl⟩
      · refine ⟨i + 1, by rw [List.length_cons]; omega, ?_⟩
        rw [stringAt_succ, hplace]
    · intro ⟨i, hi, hx⟩
      cases i with
      | zero => exact Or.inl hx
      | succ i =>
        rw [List.length_cons] at hi
        rw [stringAt_succ, hplace] at hx
        exact Or.inr ⟨i, by omega, hx⟩

theorem pointer_mem (t b : Nat) {i : Nat} (hi : i < strs.length) :
    (t + 4 * i, BitVec.ofNat 32 (stringAt b strs i)) ∈ pointersAt t b strs :=
  mem_pointersAt.mpr ⟨i, hi, rfl⟩

/-- The strings one by one. -/
theorem holds_packed : Holds m q (packed strs) ↔
    ∀ i (hi : i < strs.length), Holds m (stringAt q strs i) (withNul strs[i]) := by
  induction strs generalizing q with
  | nil =>
    constructor
    · intro _ i hi
      exact absurd hi (by simp)
    · intro _ k hk
      exact absurd hk (by simp [packed])
  | cons s strs ih =>
    rw [packed_cons, holds_append, ih]
    constructor
    · intro ⟨hfirst, hrest⟩ i hi
      cases i with
      | zero => exact hfirst
      | succ i =>
        rw [List.length_cons] at hi
        rw [stringAt_succ]
        exact hrest i (by omega)
    · intro h
      refine ⟨h 0 (by simp), fun i hi => ?_⟩
      have := h (i + 1) (by rw [List.length_cons]; omega)
      rwa [stringAt_succ] at this

/-- The words and the strings are in place. -/
def InPlace (m : User) (sp p : Nat) (argv envp : List (List Byte)) : Prop :=
  (∀ x ∈ tableWords sp p argv envp, longAt m x.1 = x.2) ∧ Holds m p (packed (argv ++ envp))

/-- What is cleared of the stack, from `i` on, is zero anyway. -/
def ClearsZeros (i sp p : Nat) (argv envp : List (List Byte)) : Prop :=
  (∀ x ∈ tableWords sp p argv envp, ∀ j < 4, Cleared i (x.1 + j) → getByte x.2 j = 0) ∧
    ∀ k (hk : k < (packed (argv ++ envp)).length), Cleared i (p + k) → (packed (argv ++ envp))[k] = 0

theorem starts_of_inPlace {n : Nat} (h : InPlace m (stackAt n argv envp) n argv envp)
    (hroom : 4 * (argv.length + envp.length + 6) ≤ n)
    (hfit : n + (packed (argv ++ envp)).length ≤ dataEnd) :
    Starts m (stackAt n argv envp) n argv envp := by
  have hsp : stackAt n argv envp =
      n / 4 * 4 - 4 * (envp.length + 1) - 4 * (argv.length + 1) - 12 := rfl
  generalize stackAt n argv envp = sp at h hsp ⊢
  obtain ⟨hwords, hold⟩ := h
  rw [packed_append, holds_append, holds_packed, holds_packed] at hold
  unfold tableWords at hwords
  simp only [List.forall_mem_append, List.forall_mem_cons] at hwords
  obtain ⟨⟨⟨⟨⟨hargc, hargv, henvp, _⟩, hargs⟩, hargsEnd, _⟩, henvs⟩, henvsEnd, _⟩ := hwords
  constructor
  case aligned => omega
  case argc => exact hargc
  case argvPtr => exact hargv
  case envpPtr => exact henvp
  case args =>
    intro i hi
    have hptr := hargs _ (pointer_mem (sp + 12) n hi)
    exact ⟨hptr, hold.1 i hi⟩
  case argsEnd => exact hargsEnd
  case envs =>
    intro i hi
    have hptr := henvs _ (pointer_mem (sp + 12 + 4 * (argv.length + 1)) (n + (packed argv).length) hi)
    exact ⟨hptr, hold.2 i hi⟩
  case envsEnd => exact henvsEnd
  case below => omega
  case inside => exact hfit

theorem inPlace_of_starts {n s : Nat} (h : Starts m s n argv envp) : InPlace m s n argv envp := by
  constructor
  · intro x hx
    unfold tableWords at hx
    simp only [List.mem_append, List.mem_cons, List.not_mem_nil, or_false, mem_pointersAt] at hx
    rcases hx with ((((rfl | rfl | rfl) | ⟨i, hi, rfl⟩) | rfl) | ⟨i, hi, rfl⟩) | rfl
    · exact h.argc
    · exact h.argvPtr
    · exact h.envpPtr
    · exact (h.args i hi).1
    · exact h.argsEnd
    · exact (h.envs i hi).1
    · exact h.envsEnd
  · rw [packed_append, holds_append, holds_packed, holds_packed]
    exact ⟨fun i hi => (h.args i hi).2, fun i hi => (h.envs i hi).2⟩

/-- What stays in place when bytes are cleared. -/
theorem inPlace_cleared {i s n : Nat} (h : InPlace m s n argv envp)
    (hclear : ∀ q, (Cleared i q → m' q = 0) ∧ (¬ Cleared i q → m' q = m q)) :
    InPlace m' s n argv envp ↔ ClearsZeros i s n argv envp := by
  obtain ⟨hwords, hold⟩ := h
  constructor
  · intro ⟨hwords', hold'⟩
    constructor
    · intro x hx j hj hc
      rw [← longAt_eq.mp (hwords' x hx) j hj]
      exact (hclear _).1 hc
    · intro k hk hc
      rw [← hold' k hk]
      exact (hclear _).1 hc
  · intro ⟨hz, hzs⟩
    constructor
    · intro x hx
      refine longAt_eq.mpr fun j hj => ?_
      by_cases hc : Cleared i (x.1 + j)
      · rw [(hclear _).1 hc, hz x hx j hj hc]
      · rw [(hclear _).2 hc]
        exact longAt_eq.mp (hwords x hx) j hj
    · intro k hk
      by_cases hc : Cleared i (n + k)
      · rw [(hclear _).1 hc, hzs k hk hc]
      · rw [(hclear _).2 hc]
        exact hold k hk

/-- **The stack after the end of the data was cleared** is right exactly when what was
cleared of it is zero anyway. -/
theorem starts_iff {n i : Nat} (h : InPlace m (stackAt n argv envp) n argv envp)
    (hroom : 4 * (argv.length + envp.length + 6) ≤ n)
    (hfit : n + (packed (argv ++ envp)).length ≤ dataEnd)
    (hclear : ∀ q, (Cleared i q → m' q = 0) ∧ (¬ Cleared i q → m' q = m q)) :
    Starts m' (stackAt n argv envp) n argv envp ↔
      ClearsZeros i (stackAt n argv envp) n argv envp := by
  rw [← inPlace_cleared h hclear]
  exact ⟨inPlace_of_starts, fun h => starts_of_inPlace h hroom hfit⟩

end Linux011.Fs.ExecStack
