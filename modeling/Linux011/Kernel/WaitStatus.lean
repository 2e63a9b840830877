import Mathlib.Data.Nat.Bitwise
import Linux011.Kernel.Pids

/-!
# The status of a child — `do_exit`, `sys_waitpid` and `sys/wait.h`

`sys_exit` shifts the exit code to the second byte before it calls `do_exit`. The other
callers do not: `oom` and `die` hand over the number of the signal, `do_signal` its bit in
the signal map. `sys_waitpid` stores what it was as it is.

* `received_code` — the word a father gets is what his child called `do_exit` with;
* `status_reported` — the macros of `sys/wait.h` tell from it how the child ended, unless
  `do_signal` ended it and the signal is not one of the first two;
* `kill_reported` — a child that was killed seems to have left with 1.
-/

namespace Linux011.Kernel.Exit

open Linux011.Kernel.Sched (nrTasks bit sigkill)

def sigsegv : Nat := 11

/-! ## `sys/wait.h` -/

/-- `WIFEXITED`. -/
def wIfExited (s : BitVec 32) : Bool := s &&& 0xff = 0

/-- `WIFSTOPPED`. -/
def wIfStopped (s : BitVec 32) : Bool := s &&& 0xff = 0x7f

/-- `WEXITSTATUS`. -/
def wExitStatus (s : BitVec 32) : BitVec 32 := (s >>> 8) &&& 0xff

/-- `WTERMSIG`. -/
def wTermSig (s : BitVec 32) : BitVec 32 := s &&& 0x7f

/-- `WIFSIGNALED`. -/
def wIfSignaled (s : BitVec 32) : Bool := (s - 1) &&& 0xffff < 0xff

/-! ## The ways to end -/

/-- Who calls `do_exit`: `sys_exit`, `do_signal`, `oom` or `die`. -/
inductive Death
  | exit (errorCode : BitVec 32)
  | signal (signr : Nat)
  | oom
  | die
  deriving DecidableEq, Repr

/-- And with what. -/
def Death.code : Death → Int
  | .exit errorCode => ((errorCode &&& 0xff) <<< 8).toInt
  | .signal signr => 2 ^ (signr - 1)
  | .oom => sigsegv
  | .die => 11

/-- The signal that ended the task. -/
def Death.signr : Death → Option Nat
  | .signal signr => some signr
  | .exit _ => none
  | .oom | .die => some sigsegv

/-- The task in the slot begins to exit. -/
inductive Dies (s : State) (j : Nat) : Death → State → Prop
  | exit (errorCode : BitVec 32) (hrun : s.Runs j) (h₀ : j ≠ 0) :
      Dies s j (.exit errorCode) (s.exit j (Death.exit errorCode).code)
  | signal {t u : Task} {signr : Nat} {code : Int} (ht : s.task j = some t) (hrun : s.Runs j)
      (hp : t.pending = some signr) (h : t.deliver = (u, some code)) (h₀ : j ≠ 0) :
      Dies s j (.signal signr) ((s.setTask j u).exit j code)
  | oom (hrun : s.Runs j) (h₀ : j ≠ 0) : Dies s j .oom (s.exit j Death.oom.code)
  | die (hrun : s.Runs j) (h₀ : j ≠ 0) : Dies s j .die (s.exit j Death.die.code)

/-! ## The father -/

/-- `sys_waitpid` of the task is at `repeat`: it was called, or it has slept. -/
inductive AtRepeat (s : State) (cur : Nat) (pid : Int) (untraced : Bool) : State → Prop
  | called (hrun : s.Runs cur) : AtRepeat s cur pid untraced s
  | woken {me : Task} (hme : s.task cur = some me) (hstate : me.state = .running)
      (hphase : me.phase = .waiting pid untraced) (hsig : (me.clearSig sigchld).signal = 0) :
      AtRepeat s cur pid untraced (s.modify cur (·.clearSig sigchld))

def State.found (s : State) (cur : Nat) (pid : Int) (untraced : Bool) : Found :=
  match s.task cur with
  | none => .nothing false
  | some me => s.scan cur me pid untraced (nrTasks - 1) false

/-- What `sys_waitpid` puts at `stat_addr` for what it has found. -/
def State.statusWord (s : State) : Found → Option (BitVec 32)
  | .stopped _ => some 0x7f
  | .zombie i => (s.task i).map fun t => .ofInt 32 t.exitCode
  | .nothing _ => none

/-- In some run a task dies of `c`, and a `sys_waitpid` that finds it then stores `w`. -/
inductive Received (r : Rules) (c : Death) (w : BitVec 32) : Prop
  | mk {s s₁ s₂ s₃ : State} {j i cur : Nat} {t d : Task} {pid : Int} {untraced : Bool}
      (hrun : Reach r boot s) (ht : s.task j = some t) (hdies : Dies s j c s₁) (hafter : Reach r s₁ s₂)
      (hwait : AtRepeat s₂ cur pid untraced s₃) (hfound : s₃.found cur pid untraced = .zombie i)
      (hd : s₃.task i = some d) (hserial : d.serial = t.serial) (hw : s₃.statusWord (.zombie i) = some w)

/-- The macros say of the word how the task ended, and nothing else. -/
def Death.Reported (c : Death) (w : BitVec 32) : Prop :=
  match c, c.signr with
  | _, some n => wIfSignaled w ∧ ¬ wIfExited w ∧ ¬ wIfStopped w ∧ (wTermSig w).toNat = n
  | .exit errorCode, none =>
    wIfExited w ∧ ¬ wIfSignaled w ∧ ¬ wIfStopped w ∧ (wExitStatus w).toNat = errorCode.toNat % 256
  | _, none => False

variable {s s' s₁ s₂ s₃ : State} {r : Rules} {c : Death} {w : BitVec 32}

/-- It is one of the steps of a run. -/
theorem Dies.step {j : Nat} (h : Dies s j c s') (hr : r.exit s j) : Step r s s' := by
  cases h with
  | exit errorCode hrun h₀ => exact .exit j _ hrun h₀ hr
  | signal ht hrun _ h h₀ => exact .killed j _ ht hrun h h₀ hr
  | oom hrun h₀ => exact .exit j _ hrun h₀ hr
  | die hrun h₀ => exact .exit j _ hrun h₀ hr

/-- What `sys_waitpid` does from there on. -/
theorem AtRepeat.resume {cur : Nat} {me : Task} (hme : s.task cur = some me) {pid : Int} {untraced : Bool}
    (hphase : me.phase = .waiting pid untraced) (hsig : (me.clearSig sigchld).signal = 0) :
    s.resume cur = (s.modify cur (·.clearSig sigchld)).waitpid cur pid false untraced := by
  unfold State.resume
  rw [hme]
  dsimp only
  rw [hphase]
  dsimp only
  rw [if_pos hsig]

/-- It returns the pid of a zombie it finds. -/
theorem waitpid_found {cur i : Nat} {pid : Int} {untraced : Bool} (h : s.found cur pid untraced = .zombie i)
    (nohang : Bool) : ∃ s', s.waitpid cur pid nohang untraced = some (s', some (s.pidOf i)) := by
  unfold State.found at h
  split at h
  · cases h
  · rename_i me hme
    obtain ⟨⟨s', res⟩, hs⟩ := waitpid_total hme pid nohang untraced
    refine ⟨s', hs.trans ?_⟩
    unfold State.waitpid at hs
    rw [hme] at hs
    dsimp only at hs
    rw [h] at hs
    obtain ⟨s₁, -, heq⟩ := Option.map_eq_some_iff.mp hs
    cases heq
    rfl

/-! ## From `do_exit` to the father -/

/-- Where the task with this number is, it leaves with the code. -/
structure Leaves (n : Nat) (code : Int) (s : State) : Prop where
  born : n < s.born
  task : ∀ i t, s.task i = some t → t.serial = n →
    t.phase = .exiting code ∧ (t.state = .zombie → t.exitCode = code)

theorem Leaves.carries {n : Nat} {code : Int} (h : Leaves n code s) (hc : Carries s s') :
    Leaves n code s' := by
  refine ⟨hc.born ▸ h.born, fun i u hu hn => ?_⟩
  obtain ⟨t, ht, htu⟩ := hc.task i u hu
  obtain ⟨hphase, hcode⟩ := h.task i t ht (htu.serial.symm.trans hn)
  have hleaves := htu.phase code hphase
  refine ⟨hleaves, fun hz => ?_⟩
  rcases htu.code hz with ⟨htz, heq⟩ | ⟨code', hphase', heq⟩
  · exact heq.trans (hcode htz)
  · rw [hleaves] at hphase'
    cases hphase'
    exact heq

/-- A task that is made has another number. -/
theorem Leaves.fork {n : Nat} {code : Int} (h : Leaves n code s) {cur m : Nat} {pages : Bool}
    (hs : s.fork cur m pages = some s') : Leaves n code s' := by
  obtain ⟨p, -, rfl | ⟨nr, t, -, rfl⟩⟩ := fork_cases hs
  · exact ⟨h.born, h.task⟩
  · refine ⟨Nat.lt_succ_of_lt h.born, fun i u hu hn => ?_⟩
    rcases setTask_some hu with ⟨-, rfl⟩ | ⟨-, hu₀⟩
    · exact absurd hn (Nat.ne_of_gt h.born)
    · exact h.task i u hu₀ hn

theorem leaves_step {n : Nat} {code : Int} (h : Leaves n code s) (hs : Step r s s') : Leaves n code s' := by
  rcases step_carries hs with hc | ⟨cur, m, pages, hfork⟩
  · exact h.carries hc
  · exact h.fork hfork

theorem leaves_run {n : Nat} {code : Int} (h : Leaves n code s) (hrun : Reach r s s') :
    Leaves n code s' := by
  induction hrun with
  | refl => exact h
  | tail _ hs ih => exact leaves_step ih hs

/-- Numbers name one task each. -/
structure Numbered (s : State) : Prop where
  serial : ∀ i j t u, s.task i = some t → s.task j = some u → t.serial = u.serial → i = j
  born   : ∀ i t, s.task i = some t → t.serial < s.born

theorem Numbered.carries (h : Numbered s) (hc : Carries s s') : Numbered s' := by
  refine ⟨fun i j u v hu hv hk => ?_, fun i u hu => ?_⟩
  · obtain ⟨t, ht, htu⟩ := hc.task i u hu
    obtain ⟨x, hx, hxv⟩ := hc.task j v hv
    exact h.serial i j t x ht hx (by rw [← htu.serial, ← hxv.serial, hk])
  · obtain ⟨t, ht, htu⟩ := hc.task i u hu
    rw [htu.serial, hc.born]
    exact h.born i t ht

theorem numbered_step (h : Numbered s) (hs : Step r s s') : Numbered s' := by
  rcases step_carries hs with hc | ⟨cur, m, pages, hfork⟩
  · exact h.carries hc
  · obtain ⟨p, -, rfl | ⟨nr, t, -, rfl⟩⟩ := fork_cases hfork
    · exact ⟨h.serial, h.born⟩
    · refine ⟨fun i j u v hu hv hk => ?_, fun i u hu => ?_⟩
      · rcases setTask_some hu with ⟨rfl, rfl⟩ | ⟨-, hu₀⟩
        · rcases setTask_some hv with ⟨rfl, -⟩ | ⟨-, hv₀⟩
          · rfl
          · exact absurd hk.symm (Nat.ne_of_lt (h.born j v hv₀))
        · rcases setTask_some hv with ⟨rfl, rfl⟩ | ⟨-, hv₀⟩
          · exact absurd hk (Nat.ne_of_lt (h.born i u hu₀))
          · exact h.serial i j u v hu₀ hv₀ hk
      · rcases setTask_some hu with ⟨-, rfl⟩ | ⟨-, hu₀⟩
        · exact Nat.lt_succ_self s.born
        · exact Nat.lt_succ_of_lt (h.born i u hu₀)

theorem numbered_reach (hrun : Reach r boot s) : Numbered s := by
  induction hrun with
  | refl => exact ⟨tree_boot.books.serial, tree_boot.books.born⟩
  | tail _ hs ih => exact numbered_step ih hs

/-- The task that runs in the slot starts to leave. -/
theorem leaves_exit (h : Numbered s) {j : Nat} {t : Task} (ht : s.task j = some t) (hrun : s.Runs j)
    (code : Int) : Leaves t.serial code (s.exit j code) := by
  obtain ⟨g, hm, hg⟩ := exit_maps ht code
  refine ⟨hm.born.symm ▸ h.born j t ht, fun i u hu hn => ?_⟩
  obtain ⟨v, hv, rfl⟩ := hm.some hu
  have hi : i = j := h.serial i j v t hv ht ((hg i v).serial.symm.trans hn)
  subst hi
  rw [ht] at hv
  cases hv
  obtain ⟨u, hu, hstate, -⟩ := hrun
  rw [ht] at hu
  cases hu
  refine ⟨(hg i t).phase.trans (if_pos rfl), fun hz => ?_⟩
  rw [(hg i t).state, hstate] at hz
  cases hz

/-- The code `do_signal` calls `do_exit` with. -/
theorem deliver_code {t u : Task} {signr : Nat} {code : Int} (hp : t.pending = some signr)
    (h : t.deliver = (u, some code)) : code = 2 ^ (signr - 1) ∧ signr ≠ sigchld := by
  unfold Task.deliver at h
  rw [hp] at h
  dsimp only at h
  split_ifs at h with h₁ h₀ hchld
  · cases h
  · cases h
  · cases h
    exact ⟨rfl, hchld⟩
  all_goals cases h

theorem leaves_dies (h : Numbered s) {j : Nat} {t : Task} (ht : s.task j = some t) (hdies : Dies s j c s') :
    Leaves t.serial c.code s' := by
  cases hdies with
  | exit errorCode hrun _ => exact leaves_exit h ht hrun _
  | @signal t' u signr code ht' hrun hp hdel _ =>
    rw [ht] at ht'
    cases ht'
    have hu : Still t u := by
      have heq := deliver_eq t
      rw [hdel] at heq
      exact own_still heq
    obtain ⟨hcode, -⟩ := deliver_code hp hdel
    obtain ⟨v, hv, hstate, hphase⟩ := hrun
    rw [ht] at hv
    cases hv
    have hleaves := leaves_exit (h.carries (carries_setTask ht hu.onward)) (setTask_at s j u)
      ⟨u, setTask_at s j u, hu.state.trans hstate, hu.phase.trans hphase⟩ code
    rw [hu.serial] at hleaves
    exact hcode ▸ hleaves
  | oom hrun _ => exact leaves_exit h ht hrun _
  | die hrun _ => exact leaves_exit h ht hrun _

theorem carries_atRepeat {cur : Nat} {pid : Int} {untraced : Bool} (h : AtRepeat s cur pid untraced s') :
    Carries s s' := by
  cases h with
  | called hrun => exact .refl s
  | woken hme hstate hphase hsig =>
    exact carries_modify cur fun t _ => Still.onward ⟨rfl, rfl, rfl, rfl, rfl⟩

theorem found_zombie {cur i : Nat} {pid : Int} {untraced : Bool} (h : s.found cur pid untraced = .zombie i) :
    ∃ t, s.task i = some t ∧ t.state = .zombie := by
  unfold State.found at h
  split at h
  · cases h
  · obtain ⟨-, -, -, t, ht, -, hz⟩ := scan_zombie h
    exact ⟨t, ht, hz⟩

/-- The father gets what the child called `do_exit` with. -/
theorem received_code (h : Received r c w) : w = .ofInt 32 c.code := by
  obtain ⟨hrun, ht, hdies, hafter, hwait, hfound, hd, hserial, hw⟩ := h
  have hleaves := (leaves_run (leaves_dies (numbered_reach hrun) ht hdies) hafter).carries
    (carries_atRepeat hwait)
  obtain ⟨d', hd', hz⟩ := found_zombie hfound
  rw [hd] at hd'
  cases hd'
  rw [← (hleaves.task _ _ hd hserial).2 hz]
  simpa [State.statusWord, hd] using hw.symm

/-- A signal that kills is one of the 32, and not `SIGCHLD`. -/
theorem received_signr {signr : Nat} (h : Received r (.signal signr) w) :
    1 ≤ signr ∧ signr ≤ 32 ∧ signr ≠ sigchld := by
  obtain ⟨-, -, hdies, -, -, -, -, -, -⟩ := h
  cases hdies with
  | signal _ _ hp hdel _ =>
    obtain ⟨b, hb, rfl⟩ := Option.map_eq_some_iff.mp hp
    have := List.mem_range.mp (List.mem_of_find?_eq_some hb)
    exact ⟨by omega, by omega, (deliver_code hp hdel).2⟩

/-! ## What the macros make of it -/

theorem and_low (s : BitVec 32) : (s &&& 0xff).toNat = s.toNat % 256 := by
  rw [BitVec.toNat_and]
  exact Nat.and_two_pow_sub_one_eq_mod s.toNat 8

theorem and_half (s : BitVec 32) : (s &&& 0xffff).toNat = s.toNat % 65536 := by
  rw [BitVec.toNat_and]
  exact Nat.and_two_pow_sub_one_eq_mod s.toNat 16

/-- An exit code is told from a signal, and is the low byte of what it was. -/
theorem reported_exit (errorCode : BitVec 32) :
    (Death.exit errorCode).Reported (.ofInt 32 (Death.exit errorCode).code) := by
  have hword : (BitVec.ofInt 32 (Death.exit errorCode).code).toNat = errorCode.toNat % 256 * 256 := by
    unfold Death.code
    rw [BitVec.ofInt_toInt, BitVec.toNat_shiftLeft, and_low, Nat.shiftLeft_eq]
    omega
  generalize BitVec.ofInt 32 (Death.exit errorCode).code = w at hword ⊢
  have hlow : (w &&& 0xff).toNat = 0 := by
    rw [and_low, hword]
    omega
  have hbefore : 255 ≤ ((w - 1) &&& 0xffff).toNat := by
    have hone : (1 : BitVec 32).toNat = 1 := rfl
    rw [and_half, BitVec.toNat_sub, hone, hword]
    omega
  have hcode : ((w >>> 8) &&& 0xff).toNat = errorCode.toNat % 256 := by
    rw [and_low, BitVec.toNat_ushiftRight, Nat.shiftRight_eq_div_pow, hword]
    omega
  refine ⟨decide_eq_true (BitVec.eq_of_toNat_eq hlow), fun hsignaled => ?_, fun hstopped => ?_, hcode⟩
  · have hlt : ((w - 1) &&& 0xffff).toNat < 255 := of_decide_eq_true hsignaled
    omega
  · have heq : (w &&& 0xff).toNat = 127 := congrArg BitVec.toNat (of_decide_eq_true hstopped)
    omega

/-- The bit of a signal is its number for the first two. -/
theorem reported_signal {signr : Nat} (h₀ : 1 ≤ signr) (h₁ : signr ≤ 32) :
    (Death.signal signr).Reported (.ofInt 32 (Death.signal signr).code) ↔ signr ≤ 2 := by
  have hall : ∀ n : Fin 32, (Death.signal (n + 1)).Reported (.ofInt 32 (Death.signal (n + 1)).code) ↔
      (n : Nat) + 1 ≤ 2 := by
    unfold Death.Reported Death.signr
    decide
  have hn := hall ⟨signr - 1, by omega⟩
  rwa [Nat.sub_add_cancel h₀] at hn

theorem reported_segv : Death.oom.Reported (.ofInt 32 Death.oom.code) ∧
    Death.die.Reported (.ofInt 32 Death.die.code) := by
  unfold Death.Reported Death.signr
  decide

/-- The child was not ended by a signal whose bit is not its number. -/
def Death.Plain (c : Death) : Prop := ∀ signr, c = .signal signr → signr ≤ 2

/-- **What the father is told.** He is told how the child ended exactly if it was not
`do_signal`, or for one of the first two signals; else he is told of another end. -/
theorem status_reported (h : Received r c w) : c.Reported w ↔ c.Plain := by
  have hw := received_code h
  subst hw
  cases c with
  | exit errorCode => exact iff_of_true (reported_exit errorCode) fun _ => Death.noConfusion
  | signal signr =>
    obtain ⟨h₀, h₁, -⟩ := received_signr h
    rw [reported_signal h₀ h₁]
    exact ⟨fun hle n hn => by cases hn; exact hle, fun hplain => hplain signr rfl⟩
  | oom => exact iff_of_true reported_segv.1 fun _ => Death.noConfusion
  | die => exact iff_of_true reported_segv.2 fun _ => Death.noConfusion

/-! ## Task 1 waits for task 2 -/

/-- Everything is allowed. -/
def anyRules : Rules := ⟨fun _ _ => True, fun _ _ => True, fun _ _ _ => True⟩

/-- A signal that is pending ends the task. -/
def State.killed (s : State) (j : Nat) : State :=
  match s.task j with
  | none => s
  | some t =>
    match t.deliver with
    | (u, some code) => (s.setTask j u).exit j code
    | (_, none) => s

theorem dies_killed {j signr : Nat} (hrun : s.Runs j) (h₀ : j ≠ 0)
    (hp : (s.task j).bind (·.pending) = some signr)
    (hdel : ((s.task j).bind fun t => t.deliver.2).isSome) : Dies s j (.signal signr) (s.killed j) := by
  obtain ⟨t, ht, hstate, hphase⟩ := hrun
  rw [ht] at hp hdel
  unfold State.killed
  rw [ht]
  obtain ⟨code, hcode⟩ := Option.isSome_iff_exists.mp hdel
  have hpair : t.deliver = (t.deliver.1, some code) := Prod.ext rfl hcode
  dsimp only
  rw [hpair]
  exact .signal ht ⟨t, ht, hstate, hphase⟩ hp hpair h₀

/-- The end of `do_exit` in slot 2. -/
def State.buried (s : State) : State := (s.exited 2).getD s

/-- Task 2, which is the second that was made, dies while task 1 runs; task 1 waits then. -/
theorem received_two (hrun : Reach anyRules boot s) (hdies : Dies s 2 c s₁)
    (hserial : (s.task 2).map (·.serial) = some 2) (code : Int)
    (hexits : s₁.status 2 = some (.running, .exiting code)) (hs : (s₁.exited 2).isSome)
    (hfather : s₁.buried.status 1 = some (.running, .user))
    (hfound : s₁.buried.found 1 (-1) false = .zombie 2)
    (hdead : (s₁.buried.task 2).map (·.serial) = some 2)
    (hw : s₁.buried.statusWord (.zombie 2) = some w) : Received anyRules c w := by
  obtain ⟨t, ht, htserial⟩ := Option.map_eq_some_iff.mp hserial
  obtain ⟨u, hu, hstatus⟩ := Option.map_eq_some_iff.mp hexits
  obtain ⟨d, hd, hdserial⟩ := Option.map_eq_some_iff.mp hdead
  exact .mk hrun ht hdies (.single (.exited 2 (eq_getD s₁ hs) ⟨u, hu, congrArg Prod.fst hstatus⟩))
    (.called (runs_of hfather)) hfound hd (hdserial.trans htserial.symm) hw

theorem reach_any_family : Reach anyRules boot family := reach_family trivial trivial

/-- Task 2 calls `exit(3)`. -/
theorem status_reported_exit : (Death.exit 3).Reported 0x300 ↔ (Death.exit 3).Plain :=
  status_reported (received_two reach_any_family (.exit 3 (runs_of (by decide +kernel)) (by decide))
    (by decide +kernel) 0x300 (by decide +kernel) (by decide +kernel) (by decide +kernel) (by decide +kernel)
    (by decide +kernel) (by decide +kernel))

/-- Task 2 is killed with `SIGKILL`, and its father is told that it left with 1. -/
theorem kill_reported : ¬ ∀ (r : Rules) (c : Death) (w : BitVec 32), Received r c w → c.Reported w := by
  intro h
  have hreceived : Received anyRules (.signal sigkill) 0x100 :=
    received_two (.tail reach_any_family (.raise 2 sigkill))
      (dies_killed (runs_of (by decide +kernel)) (by decide) (by decide +kernel) (by decide +kernel))
      (by decide +kernel) 0x100 (by decide +kernel) (by decide +kernel) (by decide +kernel)
      (by decide +kernel) (by decide +kernel) (by decide +kernel)
  exact absurd (h _ _ _ hreceived).1 (by decide)

end Linux011.Kernel.Exit
