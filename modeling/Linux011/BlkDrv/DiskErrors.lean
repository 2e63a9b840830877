import Linux011.BlkDrv.FloppyRuns
import Linux011.BlkDrv.Retry

/-!
# Errors and the end of the queue

`bad_rw_intr` and `bad_flp_intr` end a request for its errors and then look at `CURRENT`
again, which is a null pointer if there was no other request. Elsewhere `CURRENT` is there
when it is looked at: what is waited for is for the first request. The one exception is DRQ
that does not come: `do_hd` is then set, and stays so if what is behind the request is
refused.

* `safe_answer` — one answer to the hard disk driver, if it does not end the last request;
* `errors_stay_on_queue` — both drivers.
-/

namespace Linux011.BlkDrv.Hd

open Linux011.Lib

variable {β : Type} {D : Disks} {s t : State β} {r : Request} {q : List Request}

/-- What is waited for is for the first request; it is not refused while DRQ is. -/
structure Sound (D : Disks) (s : State β) : Prop where
  busy   : s.doHd ≠ none → s.queue ≠ []
  polled : s.polling = true → ∃ r q, s.queue = r :: q ∧ D.refuses r = false

/-- It comes to an end where all is well, or it panics. -/
def Safe (D : Disks) (x : Drv β Unit) (s : State β) : Prop := wp x (fun _ => Sound D) (fun e _ => e ≠ .null) s

theorem safe_hdOut (hq : s.queue = r :: q) (hpolling : s.polling = false) (c : Command)
    (intrAddr : Handler) : Safe D (hdOut D c intrAddr) s := by
  unfold Safe
  rw [wp_hdOut]
  split
  · exact fun hnull => nomatch hnull
  · exact ⟨fun _ => by simp [hq], fun hpolled => by simp [hpolling] at hpolled⟩

theorem safe_issue (hq : s.queue = r :: q) (hno : D.refuses r = false) (hpolling : s.polling = false) :
    Safe D (issue D r) s := by
  unfold Safe issue
  rw [wp_bind, wp_get]
  split
  · exact fun hnull => nomatch hnull
  · split
    · rw [wp_bind, wp_modify]
      exact safe_hdOut (s := { s with reset := false, recalibrate := true }) hq hpolling _ _
    · split
      · rw [wp_bind, wp_modify]
        exact safe_hdOut (s := { s with recalibrate := false }) hq hpolling _ _
      · split
        · rw [wp_bind, wp_hdOut]
          split
          · exact fun hnull => nomatch hnull
          · exact ⟨fun _ => by simp [hq], fun _ => ⟨r, q, hq, hno⟩⟩
        · split
          · exact safe_hdOut hq hpolling _ _
          · exact fun hnull => nomatch hnull

/-- What is set in `do_hd` has a request that is not refused. -/
theorem safe_doRequests (hq : s.queue = q) (hpolling : s.polling = false)
    (hdo : s.doHd ≠ none → ∃ r ∈ q, D.refuses r = false) : Safe D (doRequests D q) s := by
  induction q generalizing s with
  | nil =>
    refine ⟨fun hsome => ?_, fun hpolled => by simp [hpolling] at hpolled⟩
    obtain ⟨r, hr, _⟩ := hdo hsome
    simp at hr
  | cons r q ih =>
    unfold Safe
    rw [wp_doRequests_cons]
    split
    · exact fun hnull => nomatch hnull
    · split
      · rename_i hrefuses
        rw [wp_endRequest hq]
        refine ih rfl hpolling fun hsome => ?_
        obtain ⟨r', hr', hno⟩ := hdo hsome
        obtain heq | hmem := List.mem_cons.mp hr'
        · rw [heq, hrefuses] at hno
          cases hno
        · exact ⟨r', hmem, hno⟩
      · rename_i hrefuses
        exact safe_issue hq (by simpa using hrefuses) hpolling

theorem safe_doHdRequest (hpolling : s.polling = false)
    (hdo : s.doHd ≠ none → ∃ r ∈ s.queue, D.refuses r = false) : Safe D (doHdRequest D) s := by
  unfold Safe
  rw [wp_doHdRequest]
  exact safe_doRequests rfl hpolling hdo

/-- An error: the request is tried again, or another is there. -/
theorem safe_again (hq : s.queue = r :: q) (hpolling : s.polling = false)
    (hno : s.doHd ≠ none → D.refuses r = false)
    (hspare : maxErrors ≤ r.errors + 1 → q ≠ [] ∧ (s.doHd ≠ none → ∃ r' ∈ q, D.refuses r' = false)) :
    Safe D (do badRwIntr; doHdRequest D) s := by
  unfold Safe
  rw [wp_bind]
  by_cases hmax : maxErrors ≤ r.errors + 1
  · obtain ⟨hmore, hbehind⟩ := hspare hmax
    obtain ⟨r', q', hq'⟩ := List.exists_cons_of_ne_nil hmore
    rw [wp_badRwIntr_limit hq hmax, wp_current hq']
    exact safe_doHdRequest hpolling hbehind
  · rw [wp_badRwIntr hq (Nat.not_le.mp hmax)]
    exact safe_doHdRequest hpolling fun hsome => ⟨_, List.mem_cons_self, hno hsome⟩

/-- An error does not end the last request that is queued. When DRQ does not come, a
request behind it is not refused. -/
def Spares (D : Disks) (o : Outcome β) (s : State β) : Prop :=
  o.isError = true → ∀ r q, s.queue = r :: q → maxErrors ≤ r.errors + 1 →
    (s.doHd ≠ none → q ≠ []) ∧ (s.polling = true → ∃ r' ∈ q, D.refuses r' = false)

theorem safe_end (hq : s.queue = r :: q) (hdo : s.doHd = none) (hpolling : s.polling = false) :
    Safe D (do endRequest true; doHdRequest D) s := by
  unfold Safe
  rw [wp_bind, wp_endRequest hq]
  exact safe_doHdRequest hpolling fun hsome => absurd hdo hsome

theorem safe_drq (hq : s.queue = r :: q) (hno : D.refuses r = false) (hpolling : s.polling = true)
    {o : Outcome β} (hspares : Spares D o s) : Safe D (drq D o) s := by
  cases o with
  | ok =>
    unfold Safe
    rw [wp_drq_ok hq]
    exact ⟨fun _ => by simp [State.portWrite, hq], fun hpolled => nomatch hpolled⟩
  | error x =>
    unfold Safe drq
    rw [wp_bind, wp_modify]
    refine safe_again (s := { s with polling := false }) hq rfl (fun _ => hno) fun hmax => ?_
    obtain ⟨r', hr', hbehind⟩ := (hspares rfl r q hq hmax).2 hpolling
    exact ⟨List.ne_nil_of_mem hr', fun _ => ⟨r', hr', hbehind⟩⟩

/-- What an interrupt finds: nothing is waited for. -/
theorem safe_interrupt (hq : s.queue = r :: q) (hdo : s.doHd = none) (hpolling : s.polling = false)
    {bad : Bool} (hspare : bad = true → maxErrors ≤ r.errors + 1 → q ≠ []) (intr : Handler) :
    Safe D (interrupt D bad intr) s := by
  have hagain (hbad : bad = true) : Safe D (do badRwIntr; doHdRequest D) s :=
    safe_again hq hpolling (fun hsome => absurd hdo hsome) fun hmax =>
      ⟨hspare hbad hmax, fun hsome => absurd hdo hsome⟩
  cases bad with
  | true => cases intr <;> exact hagain rfl
  | false =>
    unfold Safe
    cases intr with
    | readIntr =>
      rw [interrupt, wp_readIntr_ok hq]
      split
      · exact ⟨fun _ => by simp, fun hpolled => by simp [hpolling] at hpolled⟩
      · exact safe_end rfl (by simp [hdo]) (by simp [hpolling])
    | writeIntr =>
      rw [interrupt, wp_writeIntr_ok hq]
      split
      · exact ⟨fun _ => by simp, fun hpolled => by simp [State.portWrite, hpolling] at hpolled⟩
      · exact safe_end rfl hdo hpolling
    | recalIntr =>
      rw [interrupt, recalIntr, wp_bind, wp_whenever, if_neg (by simp)]
      exact safe_doHdRequest hpolling fun hsome => absurd hdo hsome

/-- One answer, if it does not end the last request for its errors. -/
theorem safe_answer (h : Sound D s) {o : Outcome β} (hspares : Spares D o s) : Safe D (answer D o) s := by
  unfold Safe
  cases hpolling : s.polling with
  | true =>
    obtain ⟨r, q, hq, hno⟩ := h.polled hpolling
    rw [wp_answer_poll hpolling]
    exact safe_drq hq hno hpolling hspares
  | false =>
    cases hdo : s.doHd with
    | none =>
      unfold answer
      rw [wp_bind, wp_get, if_neg (by simp [hpolling]), wp_bind, wp_modify, hdo]
      exact ⟨fun hno => absurd rfl hno, fun hpolled => by simp [hpolling] at hpolled⟩
    | some intr =>
      have hsome : s.doHd ≠ none := by simp [hdo]
      obtain ⟨r, q, hq⟩ := List.exists_cons_of_ne_nil (h.busy hsome)
      rw [wp_answer_intr hpolling hdo]
      refine safe_interrupt (r := r) (q := q) (by simp [hq]) rfl (by simp [hpolling]) ?_ intr
      exact fun hbad hmax => (hspares hbad r q hq hmax).1 hsome

/-- A run that starts with nothing waited for. -/
theorem safe_after {o : Nat → Outcome β} (hdo : s.doHd = none) (hpolling : s.polling = false)
    (hspares : ∀ n t, after D o n s = .ok () t → Spares D (o n) t) (n : Nat) : Safe D (after D o n) s := by
  induction n with
  | zero => exact safe_doHdRequest hpolling fun hsome => absurd hdo hsome
  | succ n ih => exact wp_bind_run ih fun _ t ht hsound => safe_answer hsound (hspares n t ht)

end Linux011.BlkDrv.Hd

namespace Linux011.BlkDrv

open Linux011.Lib

/-- Neither driver runs off its queue, and every request is ended once or still queued, in the
order they were in, as long as no error ends the last request that is queued. For the hard
disk, a request behind it is not refused, if what it waited for was DRQ. -/
theorem errors_stay_on_queue {β : Type} (D : Hd.Disks) (s : Hd.State β) (o : Nat → Hd.Outcome β)
    (T : Nat → Floppy.FloppyStruct) (f : Floppy.State) (v : Nat → Floppy.Event) :
    (s.doHd = none → s.polling = false →
      (∀ n t, Hd.after D o n s = .ok () t → Hd.Spares D (o n) t) →
      ∀ n, wp (Hd.after D o n) (fun _ t => t.order = s.order)
        (fun e t => e ≠ .null ∧ t.order = s.order) s) ∧
    (f.doFloppy = none → f.timers = [] →
      (∀ n t, Floppy.after T v n f = .ok () t → Floppy.Spares (v n) t) →
      ∀ n, wp (Floppy.after T v n) (fun _ t => t.order = f.order)
        (fun e t => e ≠ .null ∧ t.order = f.order) f) := by
  constructor
  · intro hdo hpolling hspares n
    have hsafe := Hd.safe_after hdo hpolling hspares n
    have horder := Hd.goes_after D o n s
    exact wp_mono (wp_and hsafe horder) (fun _ t ht => ht.2.order) fun _ t ht => ⟨ht.1, ht.2.order⟩
  · intro hdo htimers hspares n
    have hsafe := Floppy.safe_after ⟨htimers, hdo⟩ hspares n
    have horder := Floppy.same_after (T := T) v n f
    exact wp_mono (wp_and hsafe horder) (fun _ t ht => ht.2) fun _ t ht => ht

-- A 1.44 MB diskette, and a request for its first block.
def diskette : Floppy.FloppyStruct := ⟨2880, 18, 2, 80, 0, 0x1B, 0, 0xCF⟩

def inserted : Floppy.State :=
  ⟨[⟨0, 540, .read, 0, 0, 2, 0⟩], false, false, false, none, [], -1, -1, diskette, 0, 0, 0, 0, 0, 0, 0,
    false, 0, [], none, [], 0, [], true, []⟩

/-- The timer and an interrupt in turn. Seeks succeed, and transfers do not. -/
def inTurn (n : Nat) : Floppy.Event :=
  ⟨if n % 2 = 0 then .timer 0 else .interrupt, 100, [0x20, 0], true⟩

-- Two blocks are asked for, and there is one error too many for the first of them.
def askedTwice : Hd.State Unit :=
  { Hd.asked 0 with queue := [Hd.twoFrom 0, { Hd.twoFrom 2 with id := 1 }] }

def sevenErrors (n : Nat) : Hd.Outcome Unit := if n < 7 then .error () else .ok

def insertedTwice : Floppy.State :=
  { inserted with queue := inserted.queue ++ [⟨1, 540, .read, 0, 2, 2, 0⟩] }

def nineErrors (n : Nat) : Floppy.Event := if n < 42 then inTurn n else ⟨.timer 0, 100, [], true⟩

/-- The errors end the first request, and the drivers go on with the second. -/
theorem errors_stay_on_queue_two :
    (∀ n, wp (Hd.after Hd.oneDisk sevenErrors n) (fun _ t => t.order = [0, 1])
      (fun e t => e ≠ .null ∧ t.order = [0, 1]) askedTwice) ∧
    (∀ n, wp (Floppy.after (fun _ => diskette) nineErrors n) (fun _ t => t.order = [0, 1])
      (fun e t => e ≠ .null ∧ t.order = [0, 1]) insertedTwice) ∧
    wp (Hd.after Hd.oneDisk sevenErrors 7) (fun _ t => t.done = [(0, false)]) (fun _ _ => False) askedTwice ∧
    wp (Floppy.after (fun _ => diskette) nineErrors 42) (fun _ t => t.done = [(0, false)])
      (fun _ _ => False) insertedTwice := by
  have hstay := errors_stay_on_queue Hd.oneDisk askedTwice sevenErrors (fun _ => diskette) insertedTwice nineErrors
  -- both requests are there whenever an error comes
  have hhd : ∀ n < 7, wp (Hd.after Hd.oneDisk sevenErrors n)
      (fun _ t => t.polling = false ∧ t.queue.length = 2) (fun _ _ => False) askedTwice := by decide +kernel
  have hfloppy : ∀ n < 42, wp (Floppy.after (fun _ => diskette) nineErrors n)
      (fun _ t => t.queue.length = 2) (fun _ _ => False) insertedTwice := by decide +kernel
  refine ⟨hstay.1 rfl rfl ?_, hstay.2 rfl rfl ?_, by decide +kernel, by decide +kernel⟩
  · intro n t ht herror r q hq _
    have hn : n < 7 := by
      by_contra hlate
      rw [sevenErrors, if_neg hlate] at herror
      cases herror
    have htwo := hhd n hn
    unfold wp at htwo
    rw [ht] at htwo
    obtain ⟨hpolling, hlength⟩ := htwo
    rw [hq] at hlength
    refine ⟨fun _ hnil => ?_, fun hpolled => ?_⟩
    · rw [hnil] at hlength
      cases hlength
    · rw [hpolling] at hpolled
      cases hpolled
  · intro n t ht hcause _
    have hn : n < 42 := by
      by_contra hlate
      rw [nineErrors, if_neg hlate] at hcause
      cases hcause
    have htwo := hfloppy n hn
    unfold wp at htwo
    rw [ht] at htwo
    intro r q hq _ hnil
    have hlength : t.queue.length = 2 := htwo
    rw [hq, hnil] at hlength
    cases hlength

/-- One request and seven errors; one request and nine transfers that fail. -/
theorem last_request_runs_off :
    wp (Hd.after Hd.oneDisk (fun _ => .error ()) 7) (fun _ _ => False) (fun e _ => e = .null) (Hd.asked 0) ∧
    wp (Floppy.after (fun _ => diskette) inTurn 42) (fun _ _ => False) (fun e _ => e = .null) inserted := by
  constructor
  · decide
  · decide +kernel

end Linux011.BlkDrv
