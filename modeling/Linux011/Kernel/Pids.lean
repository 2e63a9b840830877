import Mathlib.Data.Fintype.Pigeonhole
import Mathlib.Logic.Function.Iterate
import Linux011.Kernel.Exit

/-!
# Process ids

What one step leaves of a task — `Onward` —, and which pid `find_empty_process` finds. The
search for a pid starts over whenever a task has the one tried.

* `findPid_total` — 65 pids are different, and there are 64 slots;
* `step_carries` — a task keeps its pid, or is new, or goes;
* `pids_unique` — no two tasks have the same pid, whatever `last_pid` was at first.
-/

namespace Linux011.Kernel.Exit

open Linux011.Kernel.Sleep (TaskState)
open Linux011.Kernel.Sched (nrTasks wrap bit)

/-! ## `find_empty_process` -/

theorem nextPid_nonneg (p : Int) : 0 ≤ nextPid p := by
  unfold nextPid wrap
  split <;> omega

/-- The pids that are tried come one after the other, and after the last one the first. -/
theorem iterate_nextPid {q : Int} (h₀ : 0 ≤ q) (h₁ : q < 2147483648) {k : Nat} (hk : k ≤ 65) :
    nextPid^[k] q = if q + k < 2147483648 then q + k else q + k - 2147483647 := by
  induction k with
  | zero => simp [h₁]
  | succ k ih =>
    rw [Function.iterate_succ_apply', ih (by omega)]
    unfold nextPid wrap
    split_ifs <;> omega

theorem iterate_nextPid_inj {q : Int} (h₀ : 0 ≤ q) (h₁ : q < 2147483648) {k l : Nat} (hk : k ≤ 65)
    (hl : l ≤ 65) (h : nextPid^[k] q = nextPid^[l] q) : k = l := by
  rw [iterate_nextPid h₀ h₁ hk, iterate_nextPid h₀ h₁ hl] at h
  split_ifs at h <;> omega

variable {s s' s'' : State}

/-- The search goes on only past pids that tasks have. -/
theorem findPid_none {n : Nat} {p : Int} (h : s.findPid n p = none) {k : Nat} (hk : k < n) :
    ∃ i t, i < nrTasks ∧ s.task i = some t ∧ t.pid = nextPid^[k] (nextPid p) := by
  induction n generalizing p k with
  | zero => exact absurd hk (Nat.not_lt_zero k)
  | succ n ih =>
    unfold State.findPid at h
    split at h
    · rename_i hfound
      cases k with
      | zero =>
        obtain ⟨i, hi⟩ := Option.isSome_iff_exists.mp hfound
        obtain ⟨t, ht, hp⟩ := findTask_some hi
        exact ⟨i, t, List.mem_range.mp (List.mem_of_find?_eq_some hi), ht, hp⟩
      | succ k => exact ih h (Nat.lt_of_succ_lt_succ hk)
    · cases h

theorem findPid_mono {n m : Nat} {p q : Int} (hnm : n ≤ m) (h : s.findPid n p = some q) :
    s.findPid m p = some q := by
  induction n generalizing m p with
  | zero => cases h
  | succ n ih =>
    obtain ⟨m, rfl⟩ : ∃ k, m = k + 1 := ⟨m - 1, by omega⟩
    unfold State.findPid at h ⊢
    split at h
    · rename_i hfound
      rw [if_pos hfound]
      exact ih (by omega) h
    · rename_i hfree
      rw [if_neg hfree]
      exact h

/-- The pid found is one that was tried, and no task has it. -/
theorem findPid_found {n : Nat} {p q : Int} (h : s.findPid n p = some q) :
    0 ≤ q ∧ q < 2147483648 ∧ s.findTask q = none := by
  induction n generalizing p with
  | zero => cases h
  | succ n ih =>
    unfold State.findPid at h
    split at h
    · exact ih h
    · rename_i hfree
      cases h
      exact ⟨nextPid_nonneg p, nextPid_lt p, by simpa using hfree⟩

/-- There are more pids to try than slots. -/
theorem findPid_total (s : State) (p : Int) : ∃ q, ∀ n, 65 ≤ n → s.findPid n p = some q := by
  cases hfind : s.findPid 65 p with
  | some q => exact ⟨q, fun n hn => findPid_mono hn hfind⟩
  | none =>
    have htaken : ∀ k : Fin 65, ∃ i : Fin nrTasks, ∃ t, s.task i = some t ∧
        t.pid = nextPid^[k] (nextPid p) := by
      intro k
      obtain ⟨i, t, hi, ht⟩ := findPid_none hfind k.isLt
      exact ⟨⟨i, hi⟩, t, ht⟩
    choose slot task htask hpid using htaken
    obtain ⟨k, l, hne, heq⟩ := Fintype.exists_ne_map_eq_of_card_lt slot (by
      rw [Fintype.card_fin, Fintype.card_fin]
      decide)
    have hsame : task k = task l := by
      have := htask k
      rw [heq, htask l] at this
      exact (Option.some.inj this).symm
    have hk := hpid k
    rw [hsame, hpid l] at hk
    exact absurd (Fin.ext (iterate_nextPid_inj (nextPid_nonneg p) (nextPid_lt p)
      (Nat.le_of_lt k.isLt) (Nat.le_of_lt l.isLt) hk.symm)) hne

/-- A slot is found if one is free. -/
theorem findEmpty_iff : (∃ i, s.findEmpty = some i) ↔ ∃ i, 0 < i ∧ i < nrTasks ∧ s.task i = none := by
  constructor
  · intro ⟨i, hi⟩
    exact ⟨i, findEmpty_spec hi⟩
  · intro ⟨i, h₀, h₁, hfree⟩
    rw [← Option.isSome_iff_exists]
    refine List.find?_isSome.mpr ⟨i, ?_, by simp [hfree]⟩
    rw [List.mem_range'_1]
    unfold nrTasks at h₁ ⊢
    omega

/-! ## What becomes of a task -/

/-- The same task later: one that leaves goes on leaving, and is a zombie with the code it
left with. -/
structure Onward (t u : Task) : Prop where
  pid    : u.pid = t.pid
  serial : u.serial = t.serial
  phase  : ∀ code, t.phase = .exiting code → u.phase = .exiting code
  code   : u.state = .zombie → t.state = .zombie ∧ u.exitCode = t.exitCode ∨
    ∃ code, u.phase = .exiting code ∧ u.exitCode = code

theorem Onward.refl (t : Task) : Onward t t := ⟨rfl, rfl, fun _ h => h, fun h => Or.inl ⟨h, rfl⟩⟩

theorem Onward.trans {t u v : Task} (h : Onward t u) (h' : Onward u v) : Onward t v := by
  refine ⟨h'.pid.trans h.pid, h'.serial.trans h.serial, fun code hc => h'.phase code (h.phase code hc),
    fun hz => ?_⟩
  rcases h'.code hz with ⟨huz, hcode⟩ | hleft
  · rcases h.code huz with ⟨htz, heq⟩ | ⟨code, hphase, heq⟩
    · exact Or.inl ⟨htz, hcode.trans heq⟩
    · exact Or.inr ⟨code, h'.phase code hphase, hcode.trans heq⟩
  · exact Or.inr hleft

/-- The tasks are those there were, further on; task 0 is one of them. -/
structure Carries (s s' : State) : Prop where
  task : ∀ i u, s'.task i = some u → ∃ t, s.task i = some t ∧ Onward t u
  idle : (s.task 0).isSome → (s'.task 0).isSome
  born : s'.born = s.born

theorem Carries.refl (s : State) : Carries s s := ⟨fun _ u hu => ⟨u, hu, .refl u⟩, id, rfl⟩

theorem Carries.trans (h : Carries s s') (h' : Carries s' s'') : Carries s s'' := by
  refine ⟨fun i v hv => ?_, h'.idle ∘ h.idle, h'.born.trans h.born⟩
  obtain ⟨u, hu, huv⟩ := h'.task i v hv
  obtain ⟨t, ht, htu⟩ := h.task i u hu
  exact ⟨t, ht, htu.trans huv⟩

theorem Carries.maps {g : Nat → Task → Task} (hm : Maps g s s')
    (hg : ∀ i t, s.task i = some t → Onward t (g i t)) : Carries s s' := by
  refine ⟨fun i u hu => ?_, fun h => ?_, hm.born⟩
  · obtain ⟨t, ht, rfl⟩ := hm.some hu
    exact ⟨t, ht, hg i t ht⟩
  · rw [hm.task, Option.isSome_map]
    exact h

theorem carries_modify (i : Nat) {f : Task → Task} (hf : ∀ t, s.task i = some t → Onward t (f t)) :
    Carries s (s.modify i f) := by
  refine .maps (maps_modify i f) fun j t ht => ?_
  split_ifs with hj
  · exact hf t (hj ▸ ht)
  · exact .refl t

theorem carries_setTask {i : Nat} {t u : Task} (ht : s.task i = some t) (hu : Onward t u) :
    Carries s (s.setTask i u) := by
  refine .maps (maps_setTask u ht) fun j v hv => ?_
  split_ifs with hj
  · rw [hj, ht] at hv
    exact Option.some.inj hv ▸ hu
  · exact .refl v

theorem carries_forTasks (k : Nat) {f : Task → Task} (hf : ∀ t, Onward t (f t)) :
    Carries s (s.forTasks k f) := by
  refine .maps (maps_forTasks k f) fun j t _ => ?_
  split_ifs
  · exact hf t
  · exact .refl t

theorem carries_release {i : Nat} {waiter : Option Int} (hs : s.release i waiter = some s') :
    Carries s s' := by
  obtain ⟨t, -, hi, rfl⟩ := release_some hs
  refine ⟨fun j u hu => ⟨u, (release_other hu).2, .refl u⟩, fun h => ?_, rfl⟩
  show (Function.update s.task i none 0).isSome
  rw [Function.update_of_ne (Nat.ne_of_lt hi)]
  exact h

/-- Nothing of this changes when a task gets a signal or another father. -/
structure Still (t u : Task) : Prop where
  pid      : u.pid = t.pid
  serial   : u.serial = t.serial
  phase    : u.phase = t.phase
  state    : u.state = t.state
  exitCode : u.exitCode = t.exitCode

theorem Still.refl (t : Task) : Still t t := ⟨rfl, rfl, rfl, rfl, rfl⟩

theorem Still.trans {t u v : Task} (h : Still t u) (h' : Still u v) : Still t v :=
  ⟨h'.pid.trans h.pid, h'.serial.trans h.serial, h'.phase.trans h.phase, h'.state.trans h.state,
    h'.exitCode.trans h.exitCode⟩

theorem Still.onward {t u : Task} (h : Still t u) : Onward t u :=
  ⟨h.pid, h.serial, fun _ hc => h.phase.trans hc, fun hz => Or.inl ⟨h.state.symm.trans hz, h.exitCode⟩⟩

theorem still_sendSig (t : Task) (sig : Nat) : Still t (t.sendSig sig) := ⟨rfl, rfl, rfl, rfl, rfl⟩

theorem still_reparent (t : Task) (pid : Int) : Still t (t.reparent pid) := by
  unfold Task.reparent
  split <;> exact ⟨rfl, rfl, rfl, rfl, rfl⟩

theorem still_hangUp (t : Task) (session : Int) : Still t (t.hangUp session) := by
  unfold Task.hangUp
  split
  · exact still_sendSig t sighup
  · exact .refl t

theorem carries_sendSig (sig i : Nat) : Carries s (s.sendSig sig i) :=
  carries_modify i fun t _ => (still_sendSig t sig).onward

/-- The children of a task that leaves, with or without the signal for task 1. -/
theorem orphans_still (s : State) (pid : Int) : ∃ g, Maps g s
    (if s.orphans pid then (s.forTasks 0 (Task.reparent pid)).sendSig sigchld 1
      else s.forTasks 0 (Task.reparent pid)) ∧ ∀ i t, Still t (g i t) := by
  have hfirst := maps_forTasks (s := s) 0 (Task.reparent pid)
  have hstill : ∀ i t, Still t ((if 0 ≤ i ∧ i < nrTasks then Task.reparent pid else id) t) := by
    intro i t
    split
    · exact still_reparent t pid
    · exact .refl t
  have htold : ∀ i t, Still t ((if i = 1 then (·.sendSig sigchld) else id) t) := by
    intro i t
    split
    · exact still_sendSig t sigchld
    · exact .refl t
  split
  · exact ⟨_, hfirst.trans (maps_modify 1 _), fun i t => (hstill i t).trans (htold i _)⟩
  · exact ⟨_, hfirst, hstill⟩

/-- `do_exit` begins, in a task that was in user mode. -/
theorem carries_exit {cur : Nat} (hrun : s.Runs cur) (code : Int) : Carries s (s.exit cur code) := by
  obtain ⟨t, ht, -, hphase⟩ := hrun
  obtain ⟨g, hm, hg⟩ := orphans_still s t.pid
  unfold State.exit
  rw [ht]
  dsimp only
  refine (Carries.maps hm fun i u _ => (hg i u).onward).trans (carries_modify cur fun u hu => ?_)
  obtain ⟨v, hv, rfl⟩ := hm.some hu
  rw [ht] at hv
  cases hv
  refine ⟨rfl, rfl, fun c hc => ?_, fun hz => Or.inl ⟨hz, rfl⟩⟩
  rw [(hg cur t).phase, hphase] at hc
  cases hc

theorem carries_tellFather {cur : Nat} {pid : Int} (hs : s.tellFather cur pid = some s') :
    Carries s s' := by
  unfold State.tellFather at hs
  split at hs
  · exact carries_release hs
  · split at hs
    · exact Option.some.inj hs ▸ carries_sendSig sigchld _
    · exact carries_release hs

/-- It ends: the task is a zombie now. -/
theorem carries_exited {cur : Nat} (hs : s.exited cur = some s') : Carries s s' := by
  obtain ⟨t, code, ht, hphase⟩ := exited_some hs
  obtain ⟨g, hm, hg⟩ : ∃ g, Maps g s (if t.leader then s.forTasks 1 (Task.hangUp t.session) else s) ∧
      ∀ i u, Still u (g i u) := by
    split
    · refine ⟨_, maps_forTasks 1 _, fun i u => ?_⟩
      split
      · exact still_hangUp u t.session
      · exact .refl u
    · exact ⟨fun _ => id, ⟨fun i => by rw [Option.map_id_fun, id], rfl, rfl, rfl⟩, fun _ u => .refl u⟩
  unfold State.exited at hs
  rw [ht] at hs
  dsimp only at hs
  rw [hphase] at hs
  refine ((Carries.maps hm fun i u _ => (hg i u).onward).trans (carries_modify cur fun u hu => ?_)).trans
    (carries_tellFather hs)
  obtain ⟨v, hv, rfl⟩ := hm.some hu
  rw [ht] at hv
  cases hv
  exact ⟨rfl, rfl, fun _ hc => hc, fun _ => Or.inr ⟨code, (hg cur t).phase.trans hphase, rfl⟩⟩

/-- A task that is not leaving may go back to user mode. -/
theorem onward_phase {t : Task} (hphase : ∀ code, t.phase ≠ .exiting code) (x : TaskState) (hx : x = .zombie → t.state = .zombie)
    (phase : Phase) : Onward t { t with state := x, phase := phase } :=
  ⟨rfl, rfl, fun code hc => absurd hc (hphase code), fun hz => Or.inl ⟨hx hz, rfl⟩⟩

theorem carries_waitpid {cur : Nat} {pid : Int} {nohang untraced : Bool} {res : Option Int}
    (hcur : ∀ t, s.task cur = some t → ∀ code, t.phase ≠ .exiting code)
    (hs : s.waitpid cur pid nohang untraced = some (s', res)) : Carries s s' := by
  have huser : Carries s (s.setPhase cur .user) :=
    carries_modify cur fun t ht => onward_phase (hcur t ht) t.state id .user
  obtain ⟨me, hme, rfl | ⟨i, t, -, -, -, -, hrel⟩ | ⟨-, rfl, -⟩⟩ := waitpid_spec hs
  · exact huser
  · exact huser.trans (carries_release hrel)
  · exact carries_modify cur fun t ht => onward_phase (hcur t ht) .interruptible TaskState.noConfusion _

theorem carries_resume {cur : Nat} {pid : Int} {untraced : Bool} {res : Option Int}
    (hrun : ∃ t, s.task cur = some t ∧ t.state = .running ∧ t.phase = .waiting pid untraced)
    (hs : s.resume cur = some (s', res)) : Carries s s' := by
  obtain ⟨me, hme, -, hphase⟩ := hrun
  have hclear : Carries s (s.modify cur (·.clearSig sigchld)) :=
    carries_modify cur fun t _ => Still.onward ⟨rfl, rfl, rfl, rfl, rfl⟩
  have hwait : ∀ t, (s.modify cur (·.clearSig sigchld)).task cur = some t → ∀ code, t.phase ≠ .exiting code := by
    intro t ht code hc
    obtain ⟨u, hu, rfl⟩ := (maps_modify cur _).some ht
    rw [hme] at hu
    cases hu
    rw [if_pos rfl] at hc
    rw [show me.phase = .exiting code from hc] at hphase
    cases hphase
  unfold State.resume at hs
  rw [hme] at hs
  dsimp only at hs
  rw [hphase] at hs
  dsimp only at hs
  split at hs
  · exact hclear.trans (carries_waitpid hwait hs)
  · cases hs
    exact hclear.trans (carries_modify cur fun t ht => onward_phase (hwait t ht) t.state id .user)

theorem own_still {t u : Task} (h : ∃ sa signal blocked, u = { t with sigaction := sa, signal := signal, blocked := blocked }) :
    Still t u := by
  obtain ⟨sa, signal, blocked, rfl⟩ := h
  exact ⟨rfl, rfl, rfl, rfl, rfl⟩

/-- What `sys_fork` does, with any `last_pid`. -/
theorem fork_cases {cur n : Nat} {pages : Bool} (hs : s.fork cur n pages = some s') :
    ∃ p, s.findPid n s.lastPid = some p ∧ (s' = { s with lastPid := p } ∨ ∃ (nr : Nat) (t : Task),
      s.findEmpty = some nr ∧ s' = { s.setTask nr (t.fork p s.born) with lastPid := p, born := s.born + 1 }) := by
  unfold State.fork at hs
  cases hp : s.findPid n s.lastPid with
  | none =>
    rw [hp] at hs
    cases hs
  | some p =>
    refine ⟨p, rfl, ?_⟩
    rw [hp] at hs
    dsimp only at hs
    split at hs
    · rename_i t nr _ hnr
      exact Or.inr ⟨nr, t, hnr, (Option.some.inj hs).symm⟩
    · exact Or.inl (Option.some.inj hs).symm

/-- Every step but `fork` only carries the tasks on. -/
theorem step_carries {r : Rules} (hs : Step r s s') :
    Carries s s' ∨ ∃ cur n pages, s.fork cur n pages = some s' := by
  cases hs with
  | fork cur n pages _ _ hs => exact Or.inr ⟨cur, n, pages, hs⟩
  | exit cur code hrun _ _ => exact Or.inl (carries_exit hrun code)
  | exited cur hs _ => exact Or.inl (carries_exited hs)
  | waitpid cur pid nohang untraced res hrun _ _ hs =>
    refine Or.inl (carries_waitpid (fun t ht code hc => ?_) hs)
    obtain ⟨u, hu, -, hphase⟩ := hrun
    rw [ht] at hu
    cases hu
    rw [hphase] at hc
    cases hc
  | resume cur pid untraced res hrun _ hs => exact Or.inl (carries_resume hrun hs)
  | own cur ht _ hown => exact Or.inl (carries_setTask ht (own_still (own_eq hown)).onward)
  | @killed cur t u code ht hrun hdel _ _ =>
    have hu : Still t u := by
      have heq := deliver_eq t
      rw [hdel] at heq
      exact own_still heq
    obtain ⟨v, hv, hstate, hphase⟩ := hrun
    rw [ht] at hv
    cases hv
    exact Or.inl ((carries_setTask ht hu.onward).trans (carries_exit
      ⟨u, setTask_at s cur u, hu.state.trans hstate, hu.phase.trans hphase⟩ code))
  | raise i sig => exact Or.inl (carries_sendSig sig i)
  | @sleep cur x t ht hrun _ hx =>
    exact Or.inl (carries_setTask ht ⟨rfl, rfl, fun _ h => h, fun hz => absurd hz hx⟩)
  | @wake i t ht _ =>
    exact Or.inl (carries_setTask ht ⟨rfl, rfl, fun _ h => h, fun hz => TaskState.noConfusion hz⟩)
  | schedule =>
    refine Or.inl (carries_forTasks 1 fun t => ?_)
    refine ⟨rfl, rfl, fun _ h => h, fun hz => Or.inl ⟨?_, rfl⟩⟩
    exact (steady_wakeUp t s.jiffies).zombie hz
  | tick jiffies => exact Or.inl ⟨fun i u hu => ⟨u, hu, .refl u⟩, id, rfl⟩

/-! ## Runs -/

/-- Task 0, with any `last_pid`. -/
def bootAt (lastPid : Int) : State := { boot with lastPid := lastPid }

/-- The invariant. -/
structure Pids (s : State) : Prop where
  bound    : ∀ i t, s.task i = some t → i < nrTasks
  distinct : ∀ i j t u, s.task i = some t → s.task j = some u → t.pid = u.pid → i = j
  idle     : ∃ z, s.task 0 = some z ∧ z.pid = 0

theorem pids_boot (p : Int) : Pids (bootAt p) :=
  ⟨table_boot.bound, table_boot.distinct, table_boot.idle.imp fun _ h => ⟨h.1, h.2.1⟩⟩

theorem Pids.carries (h : Pids s) (hc : Carries s s') : Pids s' := by
  obtain ⟨z, hz, hzero⟩ := h.idle
  refine ⟨fun i u hu => ?_, fun i j u v hu hv hp => ?_, ?_⟩
  · obtain ⟨t, ht, -⟩ := hc.task i u hu
    exact h.bound i t ht
  · obtain ⟨t, ht, htu⟩ := hc.task i u hu
    obtain ⟨w, hw, hwv⟩ := hc.task j v hv
    exact h.distinct i j t w ht hw (by rw [← htu.pid, ← hwv.pid, hp])
  · obtain ⟨u, hu⟩ := Option.isSome_iff_exists.mp (hc.idle (by rw [hz]; rfl))
    obtain ⟨t, ht, htu⟩ := hc.task 0 u hu
    rw [hz] at ht
    cases ht
    exact ⟨u, hu, htu.pid.trans hzero⟩

/-- The pid found is no task's, so it is not 0. -/
theorem Pids.found (h : Pids s) {n : Nat} {p q : Int} (hq : s.findPid n p = some q) :
    0 < q ∧ q < 2147483648 ∧ ∀ i t, s.task i = some t → t.pid ≠ q := by
  obtain ⟨hnonneg, hlt, hfree⟩ := findPid_found hq
  have hno : ∀ i t, s.task i = some t → t.pid ≠ q := fun i t ht hp =>
    List.find?_eq_none.mp hfree i (List.mem_range.mpr (h.bound i t ht)) (hasPid_iff.mpr ⟨t, ht, hp⟩)
  obtain ⟨z, hz, hzero⟩ := h.idle
  have hne := hno 0 z hz
  rw [hzero] at hne
  exact ⟨by omega, hlt, hno⟩

theorem Pids.fork (h : Pids s) {cur n : Nat} {pages : Bool} (hs : s.fork cur n pages = some s') :
    Pids s' := by
  obtain ⟨p, hp, rfl | ⟨nr, t, hnr, rfl⟩⟩ := fork_cases hs
  · exact ⟨h.bound, h.distinct, h.idle⟩
  · obtain ⟨hnr₀, hnr₁, -⟩ := findEmpty_spec hnr
    obtain ⟨-, -, hno⟩ := h.found hp
    refine ⟨fun i u hu => ?_, fun i j u v hu hv hpid => ?_, ?_⟩
    · rcases setTask_some hu with ⟨rfl, -⟩ | ⟨-, hu⟩
      · exact hnr₁
      · exact h.bound i u hu
    · rcases setTask_some hu with ⟨rfl, rfl⟩ | ⟨-, hu₀⟩
      · rcases setTask_some hv with ⟨rfl, -⟩ | ⟨-, hv₀⟩
        · rfl
        · exact absurd hpid.symm (hno j v hv₀)
      · rcases setTask_some hv with ⟨rfl, rfl⟩ | ⟨-, hv₀⟩
        · exact absurd hpid (hno i u hu₀)
        · exact h.distinct i j u v hu₀ hv₀ hpid
    · obtain ⟨z, hz, hzero⟩ := h.idle
      exact ⟨z, (Function.update_of_ne (Nat.ne_of_lt hnr₀) ..).trans hz, hzero⟩

theorem pids_step {r : Rules} (h : Pids s) (hs : Step r s s') : Pids s' := by
  rcases step_carries hs with hc | ⟨cur, n, pages, hfork⟩
  · exact h.carries hc
  · exact h.fork hfork

theorem pids_reach {r : Rules} {p : Int} (hrun : Reach r (bootAt p) s) : Pids s := by
  induction hrun with
  | refl => exact pids_boot p
  | tail _ hs ih => exact pids_step ih hs

/-- **Pids are unique.** In every state no two tasks have the same pid. From every `last_pid`
the search ends, with one that is positive and nobody's, although the counter wraps; and a
slot is found if one is free. -/
theorem pids_unique {r : Rules} {p₀ : Int} (hrun : Reach r (bootAt p₀) s) :
    (∀ i j t u, s.task i = some t → s.task j = some u → t.pid = u.pid → i = j) ∧
    (∀ p, ∃ q, (∀ n, 65 ≤ n → s.findPid n p = some q) ∧ 0 < q ∧ q < 2147483648 ∧
      ∀ i t, s.task i = some t → t.pid ≠ q) ∧
    ((∃ i, s.findEmpty = some i) ↔ ∃ i, 0 < i ∧ i < nrTasks ∧ s.task i = none) ∧
    ∀ i, s.findEmpty = some i → 0 < i ∧ i < nrTasks ∧ s.task i = none := by
  have h := pids_reach hrun
  refine ⟨h.distinct, fun p => ?_, findEmpty_iff, fun i => findEmpty_spec⟩
  obtain ⟨q, hq⟩ := findPid_total s p
  exact ⟨q, hq, h.found (hq 65 (Nat.le_refl _))⟩

/-- Task 0 forks, and the pid is the last there is: the search starts again at 1. -/
theorem pids_unique_wrap : ∃ q, (∀ n, 65 ≤ n → ((bootAt 2147483646).forked 0).findPid n 2147483647 = some q) ∧
    0 < q ∧ q < 2147483648 ∧ ∀ i t, ((bootAt 2147483646).forked 0).task i = some t → t.pid ≠ q := by
  have hrun : Reach ⟨fun _ _ => True, fun _ _ => True, fun _ _ _ => True⟩ (bootAt 2147483646)
      ((bootAt 2147483646).forked 0) :=
    .single (.fork 0 2 true (runs_of rfl) trivial (eq_getD _ (by decide +kernel)))
  exact (pids_unique hrun).2.1 2147483647

end Linux011.Kernel.Exit
