import Linux011.BlkDrv.Floppy

/-!
# Runs of the floppy driver

Either a timer is set or an interrupt is waited for, or neither; a timer, a seek and a
transfer are for the first request. An error ends a request that has had `MAX_ERRORS`, and
`bad_flp_intr` then looks at the one behind it.

* `same_step` — what is not ended is queued, in the order of the queue;
* `safe_step` — one event, if it does not end the last request for its errors;
* `safe_after` — a run.
-/

namespace Linux011.BlkDrv.Floppy

open Linux011.Lib
open Hd (Fault)

/-- The requests: first what is ended, then what is queued. -/
def State.order (s : State) : List Nat := s.done.map Prod.fst ++ s.queue.map Hd.Request.id

/-- The requests are the same, in the same order. -/
def Same (s t : State) : Prop := t.order = s.order

instance : Std.Refl Same := ⟨fun _ => rfl⟩

instance : IsTrans State Same := ⟨fun _ _ _ h h' => h'.trans h⟩

variable {T : Nat → FloppyStruct} {s t : State} {r : Request} {q : List Request}

theorem same_of (hqueue : t.queue = s.queue) (hdone : t.done = s.done) : Same s t := by
  rw [Same, State.order, hqueue, hdone]
  rfl

theorem Frame.same (h : Frame s t) : Same s t := same_of h.queue h.done

/-! ## The order of the requests -/

theorem same_current : Along Same current := by
  refine along_get.bind fun s => ?_
  split
  · exact along_throw _
  · exact along_pure _

theorem same_endRequest (uptodate : Bool) : Along Same (endRequest uptodate) := by
  intro s
  cases hq : s.queue with
  | nil => exact ends_bind.mpr ((wp_current_nil hq).mpr (refl_of Same s))
  | cons r q =>
    refine (wp_endRequest hq uptodate).mpr ?_
    simp [Same, State.order, hq]

theorem same_resetFloppy : Along Same resetFloppy := along_modify fun _ => same_of rfl rfl

theorem same_output (bytes : List Nat) : Along Same (output bytes) :=
  along_modify fun s => (frame_output s bytes).same

theorem same_result : Along Same result := fun s => (frame_result s).same

theorem same_recalibrateFloppy : Along Same recalibrateFloppy := by
  refine .bind (along_modify fun _ => same_of rfl rfl) fun _ => ?_
  refine .bind (along_modify fun s => (frame_output s _).same) fun _ => along_get.bind fun s => ?_
  exact .ite (.bind (along_modify fun _ => same_of rfl rfl) fun _ => same_resetFloppy) (along_pure _)

theorem same_floppyOnTimer (command : Nat) : Along Same (floppyOnTimer command) := by
  refine along_modify fun s => ?_
  have hframe := frame_ticksToFloppyOn s s.currentDrive
  exact same_of hframe.queue hframe.done

theorem same_setUp (f : FloppyStruct) (r : Request) : Along Same (setUp f r) := by
  refine .ite (along_throw _) (.bind (along_modify fun _ => same_of rfl rfl) fun _ => ?_)
  exact .ite (same_floppyOnTimer _) (.ite (same_floppyOnTimer _) (along_throw _))

theorem same_doRequests (q : List Request) : Along Same (doRequests T q) := by
  induction q with
  | nil => exact along_pure ()
  | cons r q ih =>
    refine .ite (along_throw _) (.bind (along_modify fun _ => same_of rfl rfl) fun _ => ?_)
    exact .ite (.bind (same_endRequest _) fun _ => ih) (same_setUp _ r)

theorem same_doFdRequest : Along Same (doFdRequest T) := by
  refine .bind (along_modify fun _ => same_of rfl rfl) fun _ => along_get.bind fun s => ?_
  exact .ite same_resetFloppy (.ite same_recalibrateFloppy (same_doRequests _))

theorem same_floppyDeselect : Along Same floppyDeselect := along_modify fun _ => same_of rfl rfl

theorem same_countError : Along Same countError := by
  intro s
  cases hq : s.queue with
  | nil => exact ends_bind.mpr ((wp_current_nil hq).mpr (refl_of Same s))
  | cons r q =>
    refine (wp_countError hq).mpr ?_
    simp [Same, State.order, hq]

theorem same_badFlpIntr : Along Same badFlpIntr := by
  refine same_countError.bind fun _ => same_current.bind fun _ => ?_
  refine .bind (.whenever (same_floppyDeselect.bind fun _ => same_endRequest _)) fun _ => ?_
  exact same_current.bind fun _ => .ite (along_modify fun _ => same_of rfl rfl)
    (along_modify fun _ => same_of rfl rfl)

theorem same_rwError : Along Same rwError :=
  along_get.bind fun _ => .ite (same_floppyDeselect.bind fun _ => same_endRequest _) same_badFlpIntr

theorem same_rwInterrupt : Along Same (rwInterrupt T) := by
  refine same_result.bind fun n => along_get.bind fun s => ?_
  refine .ite (same_rwError.bind fun _ => same_doFdRequest) ?_
  refine .bind (Along.whenever (same_current.bind fun _ => along_pure _)) fun _ => ?_
  exact same_floppyDeselect.bind fun _ => (same_endRequest _).bind fun _ => same_doFdRequest

theorem same_setupRwFloppy : Along Same (setupRwFloppy T) := by
  refine .bind (same_current.bind fun _ => along_modify fun _ => same_of rfl rfl) fun _ => ?_
  refine .bind (along_modify fun _ => same_of rfl rfl) fun _ => ?_
  refine .bind (along_modify fun s => (frame_output s _).same) fun _ => along_get.bind fun s => ?_
  exact .ite same_doFdRequest (along_pure _)

theorem same_seekInterrupt : Along Same (seekInterrupt T) := by
  refine (same_output _).bind fun _ => same_result.bind fun n => along_get.bind fun s => ?_
  refine .ite (same_badFlpIntr.bind fun _ => same_doFdRequest) ?_
  exact .bind (along_modify fun _ => same_of rfl rfl) fun _ => same_setupRwFloppy

theorem same_transfer : Along Same (transfer T) := by
  refine .bind (along_modify fun s => (frame_specify s).same) fun _ => along_get.bind fun s => ?_
  refine .ite same_doFdRequest (.ite same_setupRwFloppy ?_)
  refine .bind (along_modify fun _ => same_of rfl rfl) fun _ => ?_
  refine .bind (along_modify fun s => (frame_startSeek s).same) fun _ => along_get.bind fun s => ?_
  exact .ite same_doFdRequest (along_pure _)

theorem same_recalInterrupt : Along Same (recalInterrupt T) := by
  refine (same_output _).bind fun _ => same_result.bind fun n => ?_
  refine .bind (along_modify fun s => ?_) fun _ => same_doFdRequest
  split <;> exact same_of rfl rfl

theorem same_unexpected : Along Same unexpectedFloppyInterrupt := by
  refine (same_output _).bind fun _ => same_result.bind fun n => along_modify fun s => ?_
  split <;> exact same_of rfl rfl

theorem same_resetInterrupt : Along Same (resetInterrupt T) := by
  refine (same_output _).bind fun _ => same_result.bind fun n => ?_
  exact .bind (along_modify fun s => (frame_output s _).same) fun _ => same_doFdRequest

theorem same_floppyOnInterrupt : Along Same (floppyOnInterrupt T) := by
  refine .bind (along_modify fun _ => same_of rfl rfl) fun _ => along_get.bind fun s => ?_
  exact .ite (along_modify fun _ => same_of rfl rfl) same_transfer

theorem same_step (e : Event) : Along Same (step T e) := by
  refine .bind (along_modify fun _ => same_of rfl rfl) fun _ => along_get.bind fun s => ?_
  match e.cause with
  | .interrupt =>
    refine .bind (along_modify fun _ => same_of rfl rfl) fun _ => ?_
    match s.doFloppy with
    | none => exact same_unexpected
    | some .rwInterrupt => exact same_rwInterrupt
    | some .seekInterrupt => exact same_seekInterrupt
    | some .recalInterrupt => exact same_recalInterrupt
    | some .resetInterrupt => exact same_resetInterrupt
  | .timer i =>
    refine .bind (along_modify fun _ => same_of rfl rfl) fun _ => ?_
    match s.timers[i]? with
    | none => exact along_pure ()
    | some .floppyOnInterrupt => exact same_floppyOnInterrupt
    | some .transfer => exact same_transfer

theorem same_after (o : Nat → Event) (n : Nat) : Along Same (after T o n) := by
  induction n with
  | zero => exact same_doFdRequest
  | succ n ih => exact ih.bind fun _ => same_step (o n)

/-! ## What is waited for -/

/-- At most one thing is waited for, and a timer, a seek and a transfer have a request. -/
structure Sound (s : State) : Prop where
  one  : s.timers ≠ [] → s.timers.length = 1 ∧ s.doFloppy = none
  busy : s.timers ≠ [] ∨ s.doFloppy = some .rwInterrupt ∨ s.doFloppy = some .seekInterrupt →
    s.queue ≠ []

/-- Nothing is waited for. -/
structure Idle (s : State) : Prop where
  timers   : s.timers = []
  doFloppy : s.doFloppy = none

/-- It comes to an end where all is well, or it panics. -/
def Safe (x : Drv Unit) (s : State) : Prop := wp x (fun _ => Sound) (fun e _ => e ≠ .null) s

theorem Idle.sound (h : Idle s) : Sound s := by
  refine ⟨fun ht => absurd h.timers ht, fun hbusy => ?_⟩
  simp [h.timers, h.doFloppy] at hbusy

theorem Idle.frame (h : Idle s) (ht : Frame s t) : Idle t := ⟨ht.timers.trans h.timers, ht.doFloppy.trans h.doFloppy⟩

/-- Only a reset or a recalibration is waited for. -/
theorem sound_quiet (htimers : t.timers = []) (hrw : t.doFloppy ≠ some .rwInterrupt)
    (hseek : t.doFloppy ≠ some .seekInterrupt) : Sound t :=
  ⟨fun ht => absurd htimers ht, fun hbusy => by simp [htimers, hrw, hseek] at hbusy⟩

theorem safe_resetFloppy (h : s.timers = []) : Safe resetFloppy s := by
  refine sound_quiet h ?_ ?_ <;> simp

theorem safe_recalibrateFloppy (h : s.timers = []) : Safe recalibrateFloppy s := by
  unfold Safe recalibrateFloppy
  rw [wp_bind, wp_modify, wp_bind, wp_modify, wp_bind, wp_get]
  have hframe := frame_output { s with
    recalibrate := false, currentTrack := 0, doFloppy := some .recalInterrupt }
    [fdRecalibrate, s.head * 4 ||| s.currentDrive]
  split
  · rw [wp_bind, wp_modify]
    exact safe_resetFloppy (hframe.timers.trans h)
  · refine sound_quiet (hframe.timers.trans h) ?_ ?_ <;> rw [hframe.doFloppy] <;> simp

theorem safe_setUp (f : FloppyStruct) (h : Idle s) (hq : s.queue = r :: q) : Safe (setUp f r) s := by
  have htimer (command : Nat) : Safe (floppyOnTimer command) (s.address f r) := by
    have hframe := frame_ticksToFloppyOn (s.address f r) (s.address f r).currentDrive
    have htimers : (s.address f r).timers = [] := h.timers
    have hqueue : (s.address f r).queue = r :: q := hq
    refine ⟨fun _ => ⟨by simp [htimers], hframe.doFloppy.trans h.doFloppy⟩, fun _ => ?_⟩
    simp [hframe.queue, hqueue]
  unfold Safe setUp
  split
  · exact fun hnull => nomatch hnull
  · rw [wp_bind, wp_modify]
    split
    · exact htimer _
    · split
      · exact htimer _
      · exact fun hnull => nomatch hnull

theorem safe_doRequests (h : Idle s) (hq : s.queue = q) : Safe (doRequests T q) s := by
  induction q generalizing s with
  | nil => exact h.sound
  | cons r q ih =>
    unfold Safe
    rw [doRequests]
    split
    · exact fun hnull => nomatch hnull
    · rw [wp_bind, wp_modify]
      split
      · have hqueue : ({ s with
            floppy := T (r.minor / 4)
            seek := if s.currentDrive ≠ r.dev % 4 then true else s.seek
            currentDrive := r.dev % 4 } : State).queue = r :: q := hq
        rw [wp_bind, wp_endRequest hqueue]
        exact ih ⟨h.timers, h.doFloppy⟩ rfl
      · exact safe_setUp _ ⟨h.timers, h.doFloppy⟩ hq

theorem safe_doFdRequest (htimers : s.timers = []) (hdo : s.reset = false → s.doFloppy = none) :
    Safe (doFdRequest T) s := by
  unfold Safe doFdRequest
  rw [wp_bind, wp_modify, wp_bind, wp_get]
  split
  · exact safe_resetFloppy htimers
  · rename_i hreset
    split
    · exact safe_recalibrateFloppy htimers
    · exact safe_doRequests ⟨htimers, hdo (by simpa using hreset)⟩ rfl

theorem Idle.request (h : Idle s) : Safe (doFdRequest T) s := safe_doFdRequest h.timers fun _ => h.doFloppy

/-- `bad_flp_intr`, when it does not end the last request. -/
theorem safe_badFlpIntr (h : Idle s) (hq : s.queue = r :: q) (hmore : maxErrors < r.errors + 1 → q ≠ []) :
    wp badFlpIntr (fun _ => Idle) (fun e _ => e ≠ .null) s := by
  have hlast (t : State) (ht : Idle t) (hqueue : t.queue ≠ []) :
      wp (do
        let r ← current
        if maxErrors / 2 < r.errors then modify fun s => { s with reset := true }
        else modify fun s => { s with recalibrate := true }) (fun _ => Idle) (fun e _ => e ≠ .null) t := by
    obtain ⟨r', q', hq'⟩ := List.exists_cons_of_ne_nil hqueue
    rw [wp_bind, wp_current hq']
    split <;> exact ⟨ht.timers, ht.doFloppy⟩
  unfold badFlpIntr
  rw [wp_bind, wp_countError hq, wp_bind, wp_current rfl, wp_bind, wp_whenever]
  split
  · rename_i hmax
    rw [wp_bind, floppyDeselect, wp_modify, wp_endRequest rfl]
    exact hlast _ ⟨h.timers, h.doFloppy⟩ (hmore hmax)
  · exact hlast _ ⟨h.timers, h.doFloppy⟩ (by simp)

theorem idle_end (h : Idle s) (hq : s.queue = r :: q) (uptodate : Bool) {E : Fault → State → Prop} :
    wp (do floppyDeselect; endRequest uptodate) (fun _ => Idle) E s := by
  rw [wp_bind, floppyDeselect, wp_modify]
  exact (wp_endRequest (s := { s with selected := false }) hq uptodate).mpr ⟨h.timers, h.doFloppy⟩

/-- `rw_interrupt` finds an error, other than write protection. -/
def State.rwBad (s : State) : Bool := s.result.2.rwFailed s.result.1 && !s.result.2.writeProtected

/-- `seek_interrupt` finds an error. -/
def State.seekBad (s : State) : Bool :=
  (s.output [fdSensei]).result.2.seekFailed (s.output [fdSensei]).result.1

/-- The errors of the first request do not end it, or there is another request. -/
def State.Spare (s : State) : Prop := ∀ r q, s.queue = r :: q → maxErrors < r.errors + 1 → q ≠ []

theorem State.Spare.frame (h : s.Spare) (ht : Frame s t) : t.Spare := fun r q hq => h r q (ht.queue ▸ hq)

theorem safe_rwInterrupt (h : Idle s) (hq : s.queue = r :: q) (hspare : s.rwBad = true → s.Spare) :
    Safe (rwInterrupt T) s := by
  have hframe := frame_result s
  have hqueue := hframe.queue.trans hq
  have hidle := h.frame hframe
  unfold Safe rwInterrupt
  rw [wp_bind, wp_result, wp_bind, wp_get]
  split
  · rename_i hfailed
    rw [wp_bind]
    refine wp_mono (Q := fun _ => Idle) ?_ (fun _ t ht => ht.request) fun _ _ ht => ht
    unfold rwError
    rw [wp_bind, wp_get]
    split
    · exact idle_end hidle hqueue false
    · rename_i hprotected
      have hbad : s.rwBad = true := by simp [State.rwBad, hfailed, hprotected]
      exact safe_badFlpIntr hidle hqueue ((hspare hbad).frame hframe r q hqueue)
  · have hend : Safe (do floppyDeselect; endRequest true; doFdRequest T) s.result.2 := by
      have hidleEnd := idle_end hidle hqueue true (E := fun e _ => e ≠ .null)
      rw [wp_bind] at hidleEnd
      refine (wp_bind ..).mpr (wp_mono hidleEnd (fun _ t ht => ?_) fun _ _ ht => ht)
      exact (wp_bind ..).mpr (wp_mono ht (fun _ u hu => hu.request) fun _ _ hu => hu)
    rw [wp_bind, wp_whenever]
    split
    · rw [wp_bind, wp_current hqueue]
      exact hend
    · exact hend

/-- What follows when bytes were given to the controller: a reset if it did not take them. -/
theorem safe_again (htimers : s.timers = []) (hsound : s.reset = false → Sound s) :
    Safe (do if (← get).reset then doFdRequest T) s := by
  unfold Safe
  rw [wp_bind, wp_get]
  split
  · rename_i hreset
    exact safe_doFdRequest htimers fun hno => by simp [hreset] at hno
  · rename_i hreset
    exact hsound (by simpa using hreset)

theorem safe_setupRwFloppy (htimers : s.timers = []) (hqueue : s.queue ≠ []) : Safe (setupRwFloppy T) s := by
  obtain ⟨r, q, hq⟩ := List.exists_cons_of_ne_nil hqueue
  unfold Safe setupRwFloppy setupDma
  rw [wp_bind, wp_bind, wp_current hq, wp_modify, wp_bind, wp_modify, wp_bind, wp_modify]
  have hframe := frame_output { s with dma := some (r.buffer, s.command), doFloppy := some .rwInterrupt }
    [s.command, s.head * 4 ||| s.currentDrive, s.track, s.head, s.sector, 2, s.floppy.sect,
      s.floppy.gap, 0xFF]
  refine safe_again (hframe.timers.trans htimers) fun _ => ⟨fun hno => ?_, fun _ => ?_⟩
  · exact absurd (hframe.timers.trans htimers) hno
  · exact fun hnil => hqueue (hframe.queue.symm.trans hnil)

theorem safe_seekInterrupt (h : Idle s) (hq : s.queue = r :: q) (hspare : s.seekBad = true → s.Spare) :
    Safe (seekInterrupt T) s := by
  have hframe := (frame_output s [fdSensei]).trans (frame_result _)
  have hqueue := hframe.queue.trans hq
  unfold Safe seekInterrupt output
  rw [wp_bind, wp_modify, wp_bind, wp_result, wp_bind, wp_get]
  split
  · rename_i hfailed
    rw [wp_bind]
    refine wp_mono (Q := fun _ => Idle) ?_ (fun _ t ht => ht.request) fun _ _ ht => ht
    exact safe_badFlpIntr (h.frame hframe) hqueue ((hspare hfailed).frame hframe r q hqueue)
  · rw [wp_bind, wp_modify]
    exact safe_setupRwFloppy (hframe.timers.trans h.timers) (by simp [hqueue])

theorem safe_transfer (h : Idle s) (hqueue : s.queue ≠ []) : Safe (transfer T) s := by
  have hframe := frame_specify s
  have hidle := h.frame hframe
  have hbusy : s.specify.queue ≠ [] := fun hnil => hqueue (hframe.queue.symm.trans hnil)
  unfold Safe transfer
  rw [wp_bind, wp_modify, wp_bind, wp_get]
  split
  · exact hidle.request
  · split
    · exact safe_setupRwFloppy hidle.timers hbusy
    · have hseek := frame_startSeek { s.specify with doFloppy := some .seekInterrupt }
      rw [wp_bind, wp_modify, wp_bind, wp_modify]
      refine safe_again (hseek.timers.trans hidle.timers) fun _ => ⟨fun hno => ?_, fun _ => ?_⟩
      · exact absurd (hseek.timers.trans hidle.timers) hno
      · exact fun hnil => hbusy (hseek.queue.symm.trans hnil)

theorem safe_recalInterrupt (h : Idle s) : Safe (recalInterrupt T) s := by
  have hframe := (frame_output s [fdSensei]).trans (frame_result _)
  have hidle := h.frame hframe
  unfold Safe recalInterrupt output
  rw [wp_bind, wp_modify, wp_bind, wp_result, wp_bind, wp_modify]
  split <;> exact Idle.request ⟨hidle.timers, hidle.doFloppy⟩

theorem safe_resetInterrupt (h : Idle s) : Safe (resetInterrupt T) s := by
  have hframe := (frame_output s [fdSensei]).trans (frame_result _)
  unfold Safe resetInterrupt output
  rw [wp_bind, wp_modify, wp_bind, wp_result, wp_bind, wp_modify]
  exact Idle.request ((h.frame hframe).frame (frame_output _ _))

theorem safe_unexpected (h : Sound s) : Safe unexpectedFloppyInterrupt s := by
  have hframe := (frame_output s [fdSensei]).trans (frame_result _)
  have hsound (t : State) (ht : Frame s t) : Sound t := by
    refine ⟨?_, ?_⟩
    · rw [ht.timers, ht.doFloppy]
      exact h.one
    · rw [ht.timers, ht.doFloppy, ht.queue]
      exact h.busy
  unfold Safe unexpectedFloppyInterrupt output
  rw [wp_bind, wp_modify, wp_bind, wp_result, wp_modify]
  split <;> exact hsound _ ⟨hframe.queue, hframe.done, hframe.timers, hframe.doFloppy⟩

theorem safe_floppyOnInterrupt (h : Idle s) (hqueue : s.queue ≠ []) : Safe (floppyOnInterrupt T) s := by
  unfold Safe floppyOnInterrupt
  rw [wp_bind, wp_modify, wp_bind, wp_get]
  split
  · refine ⟨fun _ => ⟨?_, h.doFloppy⟩, fun _ => hqueue⟩
    simp [h.timers]
  · exact safe_transfer ⟨h.timers, h.doFloppy⟩ hqueue

/-! ## Runs -/

/-- An interrupt takes the routine out of `do_floppy`. -/
def State.interrupted (s : State) (e : Event) : State := { s.meet e with doFloppy := none }

/-- It tells of an error. -/
def State.bad (s : State) (e : Event) : Bool :=
  match s.doFloppy with
  | some .rwInterrupt => (s.interrupted e).rwBad
  | some .seekInterrupt => (s.interrupted e).seekBad
  | _ => false

/-- An error does not end the last request that is queued. -/
def Spares (e : Event) (s : State) : Prop := e.cause = .interrupt → s.bad e = true → s.Spare

theorem Sound.interrupted (h : Sound s) {intr : Handler} (hdo : s.doFloppy = some intr) (e : Event) :
    Idle (s.interrupted e) := by
  refine ⟨?_, rfl⟩
  by_contra htimers
  have hno := (h.one htimers).2
  rw [hdo] at hno
  cases hno

theorem safe_interrupt (h : Sound s) (e : Event) (hspare : s.bad e = true → s.Spare) :
    Safe (interrupt T s.doFloppy) (s.interrupted e) := by
  unfold State.bad at hspare
  cases hdo : s.doFloppy with
  | none =>
    refine safe_unexpected ⟨fun htimers => ⟨(h.one htimers).1, rfl⟩, fun hbusy => ?_⟩
    refine h.busy (hbusy.imp_right fun hno => ?_)
    simp [State.interrupted] at hno
  | some intr =>
    have hidle := h.interrupted hdo e
    rw [hdo] at hspare
    cases intr with
    | rwInterrupt =>
      obtain ⟨r, q, hq⟩ := List.exists_cons_of_ne_nil (h.busy (.inr (.inl hdo)))
      exact safe_rwInterrupt hidle hq hspare
    | seekInterrupt =>
      obtain ⟨r, q, hq⟩ := List.exists_cons_of_ne_nil (h.busy (.inr (.inr hdo)))
      exact safe_seekInterrupt hidle hq hspare
    | recalInterrupt => exact safe_recalInterrupt hidle
    | resetInterrupt => exact safe_resetInterrupt hidle

theorem safe_timer (h : Sound s) (i : Nat) : Safe (runTimer T s.timers[i]?) { s with timers := s.timers.eraseIdx i } := by
  cases htimer : s.timers[i]? with
  | none =>
    rw [List.eraseIdx_of_length_le (List.getElem?_eq_none_iff.mp htimer)]
    exact h
  | some timer =>
    have hne : s.timers ≠ [] := by
      intro hnil
      simp [hnil] at htimer
    have hone := h.one hne
    have hidle : Idle { s with timers := s.timers.eraseIdx i } := by
      refine ⟨?_, hone.2⟩
      have hlt := (List.getElem?_eq_some_iff.mp htimer).1
      refine List.eq_nil_of_length_eq_zero ?_
      rw [List.length_eraseIdx_of_lt hlt, hone.1]
    have hqueue := h.busy (.inl hne)
    cases timer with
    | floppyOnInterrupt => exact safe_floppyOnInterrupt hidle hqueue
    | transfer => exact safe_transfer hidle hqueue

/-- One event, if it does not end the last request for its errors. -/
theorem safe_step (h : Sound s) {e : Event} (hspares : Spares e s) : Safe (step T e) s := by
  have hmeet : Sound (s.meet e) := ⟨h.one, h.busy⟩
  unfold Safe step
  rw [wp_bind, wp_modify, wp_bind, wp_get]
  cases hcause : e.cause with
  | interrupt =>
    rw [wp_bind, wp_modify]
    exact safe_interrupt h e (hspares hcause)
  | timer i =>
    rw [wp_bind, wp_modify]
    exact safe_timer hmeet i

/-- A run of the driver that starts with nothing waited for. -/
theorem safe_after {o : Nat → Event} (h : Idle s)
    (hspares : ∀ n t, after T o n s = .ok () t → Spares (o n) t) (n : Nat) : Safe (after T o n) s := by
  induction n with
  | zero => exact h.request
  | succ n ih => exact wp_bind_run ih fun _ t ht hsound => safe_step hsound (hspares n t ht)

end Linux011.BlkDrv.Floppy
