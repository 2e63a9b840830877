import Linux011.Fs.Exec
import Linux011.Mm.DemandLoad

/-!
# What `do_execve` does

What comes of the strings and of the task, whatever the file is: a call either starts the
program with the arguments it was given, or returns to a caller that has lost nothing.
Where it does neither, the exact condition is given.

* `safe_iff` — too many strings are refused, and no index is out of `page`, exactly
  when no call of `copy_strings` goes on in a full area;
* `error_restores` — an error return leaves everything as it was;
* `spliced_iff` — a script gets its arguments spliced exactly when it has an `argv[0]`;
* `binary_starts_iff` — the stack of a binary is right exactly when only zeros of it
  are cleared with the end of its data, which is so when the sums of the header have
  not gone round (`clearsZeros_of_noWrap`).
-/

namespace Linux011.Fs.Exec

open Linux011.Lib Linux011.Mm
open Linux011.Fs.ArgPages hiding ofMm wp_ofMm pageAt
open Linux011.Fs.ExecScript
open Linux011.Fs.ExecStack (User Holds InPlace Starts ClearsZeros Cleared stackAt tableWords createTables
  dataEnd)

variable {d : Disk} {cs : Word} {args : Args} {fresh : User} {s t : Sys} {rd : Ready}

/-! ## Too many strings -/

/-- No index is out of `page`; an error leaves no page behind; and what a program is
started with has fitted. -/
def Safe (d : Disk) (cs : Word) (args : Args) (fresh : User) (s : Sys) : Prop :=
  wp (doExecve d cs args fresh)
    (fun r t => (∀ e, r = .error e → t.mem.memMap = s.mem.memMap) ∧
      ∀ st, r = .ok st → size (calls d s.task args) < areaTop)
    (fun e _ => ∀ i, e = .area (.outOfPage i) → i < maxArgPages) s

theorem size_append (a b : List (List (List Byte))) : size (a ++ b) = size a + size b := by
  simp [size]

/-- What has been copied is what the calls copy. -/
theorem size_splice (sc : Script) (args : Args) :
    size ([args.envp, args.argv.tail, [args.filename]] ++ sc.iArg.toList.map ([·]) ++ [[sc.iName]]) =
      (packed (spliced sc args ++ args.envp)).length := by
  have harg : size (sc.iArg.toList.map ([·])) = (packed sc.iArg.toList).length := by
    cases sc.iArg <;> simp [size, packed]
  rw [packed_spliced, size_append, size_append, harg]
  simp only [size_cons, List.length_append]
  simp [size]
  omega

/-- What a program is started with has fitted. -/
theorem Got.fits (h : Got d args s rd t) : size (calls d s.task args) < areaTop := by
  have hbelow : ∀ {strs : List (List Byte)} {argc : Int}, Prepared s strs args.envp argc rd t →
      (packed (strs ++ args.envp)).length < areaTop := by
    intro strs argc hprep
    have hsize := hprep.laid.size
    have hpos : rd.p.toNat ≠ 0 := fun h0 => hprep.pos (BitVec.eq_of_toNat_eq h0)
    omega
  unfold calls
  cases h with
  | script file first line prepared =>
    rw [file]
    unfold callsOf
    dsimp only
    rw [if_pos first, line]
    dsimp only
    rw [size_splice]
    exact hbelow prepared
  | binary file first ok ex prepared =>
    rw [file]
    unfold callsOf
    dsimp only
    rw [if_neg (by simp [first]), if_pos ok]
    have hfit := hbelow prepared
    rw [ExecStack.packed_append, List.length_append] at hfit
    simp [size]
    omega

/-- A call in a full area uses entry `0xFFFFF` of `page`. -/
theorem not_safe (hcs : 0xffff &&& cs = 0x0f) (hfs : s.fs = .user) (hbelow : FreeBelow s.mem)
    (hover : Overruns d args s) : ¬ Safe d cs args fresh s := by
  intro hsafe
  obtain ⟨hmany, hleft⟩ := overruns_iff.mp hover
  have hspec := doExecve_spec d args fresh hcs hfs hbelow
  cases hrun : doExecve d cs args fresh s with
  | ok r t => exact (wp_ok hspec hrun).1 hmany hleft
  | error e t =>
    rcases wp_error hspec hrun with hout | ⟨hne, _⟩
    · have hlt := wp_error hsafe hrun _ hout.halt
      unfold maxArgPages at hlt
      omega
    · exact hne hmany hleft

/-- **Too many strings** are refused safely exactly when no call of `copy_strings` goes on
in a full area, or pages are short. -/
theorem safe_iff (d : Disk) (args : Args) (fresh : User) (hcs : 0xffff &&& cs = 0x0f)
    (hfs : s.fs = .user) (hbelow : FreeBelow s.mem) :
    Safe d cs args fresh s ↔ ¬ Overruns d args s := by
  constructor
  · intro hsafe hover
    exact not_safe hcs hfs hbelow hover hsafe
  · intro hnot
    refine wp_mono (doExecve_spec d args fresh hcs hfs hbelow) ?_ ?_
    · intro r t ⟨_, herror, hok⟩
      refine ⟨fun e he => (herror e he).2.mem.count, fun st hst => ?_⟩
      obtain ⟨rd, u, hgot, _⟩ := hok st hst
      exact hgot.fits
    · intro e t hstop i hi
      rcases hstop with hout | ⟨_, rfl | rfl⟩
      · exact absurd (overruns_iff.mpr ⟨hout.many, hout.left⟩) hnot
      · cases hi
      · cases hi

/-! ## Errors -/

/-- **An error return** leaves the task, fs, the counts of inodes and buffers, and all
memory in use as they were; and where the strings do not overrun the area, the call
comes back from all that precedes the point of no return. -/
theorem error_restores (d : Disk) (cs : Word) (args : Args) (fresh : User) (hfs : s.fs = .user)
    (hbelow : FreeBelow s.mem) :
    (∀ e t, doExecve d cs args fresh s = .ok (.error e) t → Restored s t) ∧
      (¬ Overruns d args s → ∃ r t, prepare d args s = .ok r t) := by
  constructor
  · intro e t hrun
    by_cases hcs : 0xffff &&& cs = 0x0f
    · have hspec := wp_ok (doExecve_spec d args fresh hcs hfs hbelow) hrun
      exact (hspec.2.1 e rfl).2
    · -- called from the kernel
      unfold doExecve at hrun
      rw [if_pos hcs] at hrun
      cases hrun
  · intro hnot
    have hspec := prepare_spec d args hfs hbelow
    cases hrun : prepare d args s with
    | ok r t => exact ⟨r, t, rfl⟩
    | error e t =>
      have hout := wp_error hspec hrun
      exact absurd (overruns_iff.mpr ⟨hout.many, hout.left⟩) hnot

/-! ## Scripts -/

/-- The arguments of an interpreter, by what the line says. -/
def argsFor (line : List Byte) (args : Args) : List (List Byte) :=
  lastComponent (firstWord line) :: (restOf line).toList ++ args.filename :: args.argv.tail

/-- The strings of a script are spliced: they are in the area in this order, and `argc`
and `envc` are their numbers. -/
structure Spliced (s : Sys) (line : List Byte) (args : Args) (rd : Ready) (t : Sys) : Prop where
  placed : Laid s.mem t.toArea rd.p.toNat (packed (argsFor line args ++ args.envp))
  argc   : rd.argc = (argsFor line args).length
  envc   : rd.envc = args.envp.length

theorem doExecve_error {e : Int} (hcs : 0xffff &&& cs = 0x0f)
    (h : prepare d args s = .ok (.error e) t) : doExecve d cs args fresh s = .ok (.error e) t := by
  unfold doExecve
  rw [if_neg (by simpa using hcs)]
  show EStateM.bind (prepare d args) _ s = _
  unfold EStateM.bind
  rw [h]
  rfl

/-- The script that is run was found in the line. -/
theorem Got.line {n : Nat} {b : Nat → Byte} (h : Got d args s rd t)
    (hopen : opened d s.task args = some (n, b)) (hscript : isScript b = true) :
    ∃ line, cutLine (bufOf b) = some line ∧ firstWord line ≠ [] ∧
      Prepared s (argsFor line args) args.envp
        (scriptArgc ⟨firstWord line, lastComponent (firstWord line), restOf line⟩ args) rd t := by
  cases h with
  | binary file first ok ex prepared =>
    rw [hopen] at file
    cases file
    rw [hscript] at first
    cases first
  | script file first parsed prepared =>
    rw [hopen] at file
    cases file
    by_contra hno
    have hnone : parseScript b = none := by
      refine parseScript_none.mpr fun line hline => ?_
      by_contra hword
      rw [parseScript_eq hline hword] at parsed
      cases parsed
      exact hno ⟨line, hline, hword, prepared⟩
    rw [hnone] at parsed
    cases parsed

/-- **A script** without an interpreter gives `ENOEXEC`; and when the interpreter is run
its arguments are spliced exactly when there is an `argv[0]` to take off. -/
theorem spliced_iff {n : Nat} {b : Nat → Byte} (cs : Word) (fresh : User) (hcs : 0xffff &&& cs = 0x0f)
    (hfs : s.fs = .user) (hbelow : FreeBelow s.mem) (hopen : opened d s.task args = some (n, b))
    (hscript : isScript b = true) :
    ((∀ line, cutLine (bufOf b) = some line → firstWord line = []) →
        ∃ t, doExecve d cs args fresh s = .ok (.error enoexec) t) ∧
      ∀ rd t, prepare d args s = .ok (.ok rd) t →
        ∃ line, cutLine (bufOf b) = some line ∧ firstWord line ≠ [] ∧
          (Spliced s line args rd t ↔ args.argv ≠ []) := by
  have hspec := prepare_spec d args hfs hbelow
  constructor
  · intro hbad
    have hparse := parseScript_none.mpr hbad
    have hcalls : calls d s.task args = [] := by
      unfold calls
      rw [hopen]
      unfold callsOf
      dsimp only
      rw [if_pos hscript, hparse]
    cases hrun : prepare d args s with
    | error e t =>
      have hleft := (wp_error hspec hrun).left
      rw [hcalls] at hleft
      exact absurd hleft leftOf_nil
    | ok r t =>
      have hends := wp_ok hspec hrun
      cases r with
      | error e =>
        have he := (hends.error e rfl).1 n b hopen hscript hparse
        rw [he] at hrun
        exact ⟨t, doExecve_error hcs hrun⟩
      | ok rd =>
        obtain ⟨line, hline, hword, _⟩ := (hends.ready rd rfl).line hopen hscript
        exact absurd (hbad line hline) hword
  · intro rd t hrun
    obtain ⟨line, hline, hword, hprep⟩ := ((wp_ok hspec hrun).ready rd rfl).line hopen hscript
    refine ⟨line, hline, hword, ?_⟩
    have hargc := hprep.argc
    have hlength : (argsFor line args).length =
        (restOf line).toList.length + (args.argv.length - 1) + 2 := by
      simp [argsFor]
      omega
    unfold scriptArgc at hargc
    dsimp only at hargc
    constructor
    · intro h hnil
      have := h.argc
      rw [hlength, hargc, hnil, List.length_nil] at this
      omega
    · intro hne
      have hpos := List.length_pos_iff.mpr hne
      exact ⟨hprep.laid, by omega, hprep.envc⟩

/-! ## Binaries -/

/-- Where the strings begin in the data segment of the program. -/
def stringsStart (args : Args) : Nat := dataEnd - 4 - (packed (args.argv ++ args.envp)).length

theorem length_le_packed (strs : List (List Byte)) : strs.length ≤ (packed strs).length := by
  induction strs with
  | nil => exact Nat.zero_le _
  | cons x strs ih =>
    rw [ExecStack.packed_cons, List.length_append, List.length_cons]
    have : (withNul x).length = x.length + 1 := by simp [withNul]
    omega

/-- The strings of the area are where `create_tables` looks for them. -/
theorem Prepared.seen {argc : Int} (h : Prepared s args.argv args.envp argc rd t) (fresh : User) :
    (stringsAt rd.p).toNat = stringsStart args ∧
      (packed (args.argv ++ args.envp)).length < areaTop ∧
      Holds (afterPut t.toArea fresh) (stringsStart args) (packed (args.argv ++ args.envp)) := by
  have hsize := h.laid.size
  have hpos : rd.p.toNat ≠ 0 := fun h0 => h.pos (BitVec.eq_of_toNat_eq h0)
  have htop : areaTop = 131068 := rfl
  have hmax : maxArgPages = 32 := rfl
  have hend : dataEnd = 0x4000000 := rfl
  have hat : (stringsAt rd.p).toNat = rd.p.toNat + 0x3fe0000 := by
    have hbase : stringsAt rd.p = rd.p + 0x3fe0000 := by
      unfold stringsAt
      rw [BitVec.sub_eq_add_neg, BitVec.add_assoc]
      rfl
    rw [hbase, BitVec.toNat_add]
    simp
    omega
  have hstart : stringsStart args = rd.p.toNat + 0x3fe0000 := by
    unfold stringsStart
    omega
  refine ⟨hat.trans hstart.symm, by omega, fun k hk => ?_⟩
  have hback : rd.p.toNat + 0x3fe0000 + k - (dataEnd - maxArgPages * 4096) = rd.p.toNat + k := by
    have hbase : dataEnd - maxArgPages * 4096 = 0x3fe0000 := rfl
    rw [hbase, Nat.add_right_comm, Nat.add_sub_cancel]
  have hpage : t.page ((rd.p.toNat + k) / 4096) ≠ 0 :=
    (h.laid.there _ (by omega)).mpr ⟨by omega, by omega⟩
  unfold afterPut
  dsimp only
  rw [hstart, hback, if_pos ⟨by omega, by omega, hpage⟩]
  exact h.laid.holds k hk

/-- **A binary** that is run starts with the stack it should have exactly when only zeros
of it are cleared with the end of its data. -/
theorem binary_starts_iff {n : Nat} {b : Nat → Byte} {st : Started} (hfs : s.fs = .user)
    (hbelow : FreeBelow s.mem) (hopen : opened d s.task args = some (n, b))
    (hbinary : isScript b = false) (hnul : ∀ x ∈ args.argv ++ args.envp, (0 : Byte) ∉ x)
    (hrun : doExecve d cs args fresh s = .ok (.ok st) t) :
    Starts st.user st.esp.toNat (stringsStart args) args.argv args.envp ↔
      ClearsZeros ((header b).aText + (header b).aData).toNat
        (stackAt (stringsStart args) args.argv args.envp) (stringsStart args) args.argv args.envp := by
  have hcs : 0xffff &&& cs = 0x0f := by
    by_contra hcs
    unfold doExecve at hrun
    rw [if_pos hcs] at hrun
    cases hrun
  obtain ⟨rd, u, hgot, htables⟩ := (wp_ok (doExecve_spec d args fresh hcs hfs hbelow) hrun).2.2 st rfl
  cases hgot with
  | script file first line prepared =>
    rw [hopen] at file
    cases file
    rw [hbinary] at first
    cases first
  | binary file first ok ex prepared =>
    rw [hopen] at file
    cases file
    obtain ⟨hp, hsmall, hold⟩ := prepared.seen fresh
    obtain ⟨m, hm, hclear⟩ := htables.tables
    rw [prepared.argc, prepared.envc] at hm
    rw [ex] at hclear
    have htop : areaTop = 131068 := rfl
    have hend : dataEnd = 0x4000000 := rfl
    have hcount := length_le_packed (args.argv ++ args.envp)
    rw [List.length_append] at hcount
    have hplace : stringsStart args = dataEnd - 4 - (packed (args.argv ++ args.envp)).length := rfl
    have hroom : 4 * (args.argv.length + args.envp.length + 6) ≤ stringsStart args := by omega
    have hfit : stringsStart args + (packed (args.argv ++ args.envp)).length ≤ dataEnd := by omega
    rw [← hp] at hroom hfit hold ⊢
    obtain ⟨m', sp, hm', hsp, hwords, hframe⟩ := ExecStack.createTables_spec hnul hroom hfit hold
    rw [hm'] at hm
    cases hm
    have hplaced : InPlace m (stackAt (stringsAt rd.p).toNat args.argv args.envp)
        (stringsAt rd.p).toNat args.argv args.envp := by
      rw [← hsp]
      exact ⟨hwords, hold.congr fun k _ => hframe _ (by omega)⟩
    rw [hsp]
    exact ExecStack.starts_iff hplaced hroom hfit (ExecStack.clearBss_spec (by omega) hclear)

/-- Nothing of the stack is cleared when the end of the data is below it. -/
theorem clearsZeros_of_below {i sp p : Nat} {argv envp : List (List Byte)}
    (hlow : ∀ q, Cleared i q → q < sp) (hsp : sp ≤ p) : ClearsZeros i sp p argv envp := by
  constructor
  · intro x hx j _ hc
    have hlt := hlow _ hc
    have hge : sp ≤ x.1 := by
      unfold tableWords at hx
      simp only [List.mem_append, List.mem_cons, List.not_mem_nil, or_false] at hx
      rcases hx with ((((rfl | rfl | rfl) | hx) | rfl) | hx) | rfl
      case inl.inl.inl.inr => exact Nat.le_trans (by omega) (ExecStack.pointersAt_range hx).1
      case inl.inr => exact Nat.le_trans (by omega) (ExecStack.pointersAt_range hx).1
      all_goals dsimp only; omega
    omega
  · intro k _ hc
    have hlt := hlow _ hc
    omega

/-- That is so where the sums of the header have not gone round. -/
theorem clearsZeros_of_noWrap {ex : ExecHeader.Exec} {iSize : Word} (args : Args)
    (hacc : ex.accepts iSize = true) (hw : ExecHeader.NoWrap ex)
    (hfit : (packed (args.argv ++ args.envp)).length < areaTop) :
    ClearsZeros (ex.aText + ex.aData).toNat (stackAt (stringsStart args) args.argv args.envp)
      (stringsStart args) args.argv args.envp := by
  obtain ⟨-, -, -, hsmall, -⟩ := ExecHeader.accepts_iff.mp hacc
  rw [Nat.mod_eq_of_lt hw.image] at hsmall
  have hsum : (ex.aText + ex.aData).toNat ≤ 0x3000000 := by
    rw [BitVec.toNat_add, Nat.mod_eq_of_lt (by omega)]
    omega
  have htop : areaTop = 131068 := rfl
  have hend : dataEnd = 0x4000000 := rfl
  have hcount := length_le_packed (args.argv ++ args.envp)
  rw [List.length_append] at hcount
  have hplace : stringsStart args = dataEnd - 4 - (packed (args.argv ++ args.envp)).length := rfl
  have hstack : stackAt (stringsStart args) args.argv args.envp =
      stringsStart args / 4 * 4 - 4 * (args.envp.length + 1) - 4 * (args.argv.length + 1) - 12 := rfl
  refine clearsZeros_of_below (fun q hq => ?_) (by omega)
  have hlt := hq.2
  omega

/-! ## Examples -/

/-- A block that begins with bytes, and zeros behind. -/
def blockOf (bs : List Byte) : Nat → Byte := fun i => bs.getD i 0

/-- Every name leads to a file with this first block. -/
def oneFile (b : Nat → Byte) : Disk where
  namei _ := some 1
  inode _ := ⟨0o100755, 0, 0, 1, 7, 0x10000⟩
  block _ _ := some b

def rootTask : Task :=
  ⟨0, 0, none, fun _ => 0, fun _ => none, fun _ => false, false, Kernel.Segment.initLdt, 0, 0, 0, 0⟩

/-- The superuser, with the memory of the start. -/
def bootSys : Sys := ⟨⟨bootMem, .user, fun _ => 0⟩, rootTask, fun _ => 0, fun _ => 0⟩

theorem freeBelow_boot : FreeBelow bootSys.mem := by
  intro m hm _
  have hpp : pagingPages = 3840 := rfl
  have hhigh : bootSys.mem.highMemory = 0x1000000 := rfl
  omega

/-- All main memory is free at the start. -/
theorem freeCount_boot : 32 ≤ freeCount bootSys.mem := by
  have hfree : Finset.Ico 768 800 ⊆ (Finset.range pagingPages).filter fun i => bootSys.mem.memMap i = 0 := by
    intro i hi
    obtain ⟨hlo, hhi⟩ := Finset.mem_Ico.mp hi
    have hpp : pagingPages = 3840 := rfl
    have hfirst : mapNr 0x400000 = 768 := rfl
    have hpages : (0x1000000 - 0x400000) >>> 12 = 3072 := rfl
    have hmap : bootSys.mem.memMap i =
        if mapNr 0x400000 ≤ i ∧ i < mapNr 0x400000 + (0x1000000 - 0x400000) >>> 12 then 0 else used := rfl
    rw [Finset.mem_filter, Finset.mem_range, hmap, if_pos (by omega)]
    exact ⟨by omega, rfl⟩
  calc 32 = (Finset.Ico 768 800).card := (Nat.card_Ico 768 800).symm
    _ ≤ freeCount bootSys.mem := Finset.card_le_card hfree

/-- A header with 1024 bytes of text. -/
def plainBlock : Nat → Byte := blockOf [0x0b, 0x01, 0, 0, 0, 0x04]

/-- A header whose sums go round, and whose data ends below the end of the stack. -/
def roundBlock : Nat → Byte :=
  blockOf [0x0b, 0x01, 0, 0, 0, 0x04, 0, 0, 0xfa, 0xfb, 0xff, 0x03, 0, 0, 0, 0xff, 0x06, 0, 0, 0xfc]

/-- One argument. -/
def oneArg (arg : List Byte) : Args := ⟨[0x2f], [arg], []⟩

theorem calls_plain (args : Args) :
    calls (oneFile plainBlock) rootTask args = [args.envp, args.argv] := rfl

theorem safe_one : ¬ Overruns (oneFile plainBlock) (oneArg [0x61]) bootSys ∧
    Safe (oneFile plainBlock) 0x0f (oneArg [0x61]) (fun _ => 0) bootSys := by
  have hleft : leftOf (calls (oneFile plainBlock) rootTask (oneArg [0x61])) ≠ none := by
    rw [calls_plain]
    decide
  have hfits : ¬ Overruns (oneFile plainBlock) (oneArg [0x61]) bootSys :=
    fun h => hleft (overruns_iff.mp h).2
  rw [safe_iff _ _ _ (by decide) rfl freeBelow_boot]
  exact ⟨hfits, hfits⟩

/-- One string of 128 kB is not refused. -/
theorem not_safe_long :
    ¬ Safe (oneFile plainBlock) 0x0f (oneArg (List.replicate 131068 0x61)) (fun _ => 0) bootSys := by
  have hsize : ∀ x : List Byte, (packed [x]).length = x.length + 1 := fun x => by
    simp [packed, withNul]
  refine not_safe (by decide) rfl freeBelow_boot ⟨freeCount_boot, ?_⟩
  generalize hlong : List.replicate 131068 (0x61 : Byte) = long
  have hlength : long.length = 131068 := by
    rw [← hlong, List.length_replicate]
  refine ⟨[[]], [long], [], calls_plain (oneArg long), by decide, ?_⟩
  rw [hsize, hlength]
  decide

/-- What is seen of the value a run comes back with. -/
def seen {α β : Type} (f : α → β) (r : EStateM.Result Halt Sys (Except Int α)) : Option (Except Int β) :=
  match r with
  | .ok x _ => some (x.map f)
  | .error _ _ => none

theorem run_of_seen {α β : Type} {f : α → β} {r : EStateM.Result Halt Sys (Except Int α)} {y : β}
    (h : seen f r = some (.ok y)) : ∃ x t, r = .ok (.ok x) t ∧ f x = y := by
  unfold seen at h
  split at h
  · next x t =>
    cases x with
    | error e => cases h
    | ok x =>
      cases h
      exact ⟨x, t, rfl, rfl⟩
  · cases h

theorem error_of_seen {α β : Type} {f : α → β} {r : EStateM.Result Halt Sys (Except Int α)} {e : Int}
    (h : seen f r = some (.error e)) : ∃ t, r = .ok (.error e) t := by
  unfold seen at h
  split at h
  · next x t =>
    cases x with
    | error e' =>
      cases h
      exact ⟨t, rfl⟩
    | ok x => cases h
  · cases h

/-- `#!/a` and a newline. -/
def scriptBlock : Nat → Byte := blockOf [0x23, 0x21, 0x2f, 0x61, 0x0a]

/-- A script under the name `s`; every other name leads to a program. -/
def scriptDisk : Disk where
  namei name := if name = [0x73] then some 2 else some 1
  inode n := ⟨0o100755, 0, 0, 1, 6 + n, 0x10000⟩
  block _ zone := if zone = 8 then some scriptBlock else some plainBlock

/-- Run with `argv[0]` and one more argument. -/
def twoArgs : Args := ⟨[0x73], [[0x73], [0x62]], []⟩

/-- Run with nothing at all. -/
def noArgs : Args := ⟨[0x73], [], []⟩

theorem opened_script (args : Args) (h : args.filename = [0x73]) :
    opened scriptDisk rootTask args = some (2, scriptBlock) := by
  unfold opened
  rw [h]
  rfl

theorem spliced_two : ∃ rd t line, prepare scriptDisk twoArgs bootSys = .ok (.ok rd) t ∧
    Spliced bootSys line twoArgs rd t := by
  have hargc : seen (·.argc) (prepare scriptDisk twoArgs bootSys) = some (.ok 3) := by
    decide +kernel
  obtain ⟨rd, t, hrun, _⟩ := run_of_seen hargc
  obtain ⟨line, -, -, hiff⟩ := (spliced_iff (n := 2) (b := scriptBlock) 0x0f (fun _ => 0)
    (by decide) rfl freeBelow_boot (opened_script twoArgs rfl) (by decide)).2 rd t hrun
  exact ⟨rd, t, line, hrun, hiff.mpr (by decide)⟩

/-- The same script, where nothing has the name of its interpreter. -/
def lostDisk : Disk := { scriptDisk with namei := fun name => if name = [0x73] then some 2 else none }

/-- The strings have been copied when the interpreter is looked for: the page they are in is freed again. -/
theorem lost_restored : ∃ t,
    doExecve lostDisk 0x0f twoArgs (fun _ => 0) bootSys = .ok (.error enoent) t ∧ Restored bootSys t := by
  have herror : seen Started.esp (doExecve lostDisk 0x0f twoArgs (fun _ => 0) bootSys) = some (.error enoent) := by
    decide +kernel
  obtain ⟨t, hrun⟩ := error_of_seen herror
  exact ⟨t, hrun, (error_restores _ _ _ _ rfl freeBelow_boot).1 _ _ hrun⟩

/-- Without arguments two strings are placed, and `argc` is 1. -/
theorem not_spliced_none : cutLine (bufOf scriptBlock) = some [0x2f, 0x61] ∧
    ∃ rd t, prepare scriptDisk noArgs bootSys = .ok (.ok rd) t ∧
      ¬ Spliced bootSys [0x2f, 0x61] noArgs rd t := by
  have hargc : seen (·.argc) (prepare scriptDisk noArgs bootSys) = some (.ok 1) := by
    decide +kernel
  obtain ⟨rd, t, hrun, hone⟩ := run_of_seen hargc
  refine ⟨by decide +kernel, rd, t, hrun, fun h => ?_⟩
  have htwo := h.argc
  rw [hone] at htwo
  exact absurd htwo (by decide)

theorem started_plain : ∃ st t,
    doExecve (oneFile plainBlock) 0x0f (oneArg [0x61]) (fun _ => 0) bootSys = .ok (.ok st) t ∧
      Starts st.user st.esp.toNat (stringsStart (oneArg [0x61])) [[0x61]] [] := by
  have hesp : seen Started.esp
      (doExecve (oneFile plainBlock) 0x0f (oneArg [0x61]) (fun _ => 0) bootSys) =
        some (.ok 0x3ffffe0) := by decide +kernel
  obtain ⟨st, t, hrun, _⟩ := run_of_seen hesp
  have hacc : (header plainBlock).accepts 0x10000 = true := by decide
  have hzeros := clearsZeros_of_noWrap (oneArg [0x61]) hacc ⟨by decide, by decide⟩ (by decide)
  exact ⟨st, t, hrun, (binary_starts_iff (n := 1) rfl freeBelow_boot rfl (by decide) (by decide)
    hrun).mpr hzeros⟩

/-- The program finds nothing where its argument was. -/
theorem not_started_round : (header roundBlock).accepts 0x10000 = true ∧ ∃ st t,
    doExecve (oneFile roundBlock) 0x0f (oneArg [0x61]) (fun _ => 0) bootSys = .ok (.ok st) t ∧
      ¬ Starts st.user st.esp.toNat (stringsStart (oneArg [0x61])) [[0x61]] [] := by
  have hbyte : seen (fun st : Started => st.user (stringsStart (oneArg [0x61])))
      (doExecve (oneFile roundBlock) 0x0f (oneArg [0x61]) (fun _ => 0) bootSys) =
        some (.ok 0) := by decide +kernel
  obtain ⟨st, t, hrun, hzero⟩ := run_of_seen hbyte
  refine ⟨by decide, st, t, hrun, fun h => ?_⟩
  have hone := (h.args 0 (by decide)).2 0 (by decide)
  exact absurd (hzero.symm.trans hone) (by decide)

end Linux011.Fs.Exec
