import Linux011.Lib.Along
import Linux011.BlkDrv.HardDisk

/-!
# Completion

What `end_request` has ended is ended, and what is not ended is queued, in the order the
requests were queued in. This holds wherever the driver gets to, a panic included.

* `goes_answer` — one answer of the controller;
* `goes_after` — a run: `do_hd_request`, and any number of answers.
-/

namespace Linux011.BlkDrv.Hd

open Linux011.Lib

variable {β : Type}

/-- `do_hd_request` is called, and then the controller answers `n` times. -/
def after (D : Disks) (o : Nat → Outcome β) : Nat → Drv β Unit
  | 0 => doHdRequest D
  | n + 1 => do
    after D o n
    answer D (o n)

/-- The requests: first what is ended, then what is queued. -/
def State.order (s : State β) : List Nat := s.done.map Prod.fst ++ s.queue.map Request.id

/-- Requests may end, and the data stays unless it is moved. -/
structure Goes (moving : Bool) (s t : State β) : Prop where
  done  : s.done <+: t.done
  order : t.order = s.order
  data  : moving = false → t.mem = s.mem ∧ t.disk = s.disk

variable {m : Bool} {s t : State β}

instance : Std.Refl (Goes (β := β) m) := ⟨fun _ => ⟨List.prefix_rfl, rfl, fun _ => ⟨rfl, rfl⟩⟩⟩

instance : IsTrans (State β) (Goes m) :=
  ⟨fun _ _ _ h h' => ⟨h.done.trans h'.done, h'.order.trans h.order, fun hm =>
    ⟨(h'.data hm).1.trans (h.data hm).1, (h'.data hm).2.trans (h.data hm).2⟩⟩⟩

theorem goes_same (hqueue : t.queue = s.queue) (hdone : t.done = s.done) (hmem : t.mem = s.mem)
    (hdisk : t.disk = s.disk) : Goes m s t :=
  ⟨hdone ▸ List.prefix_rfl, by rw [State.order, hqueue, hdone]; rfl, fun _ => ⟨hmem, hdisk⟩⟩

theorem goes_moving (hqueue : t.queue = s.queue) (hdone : t.done = s.done) : Goes true s t :=
  ⟨hdone ▸ List.prefix_rfl, by rw [State.order, hqueue, hdone]; rfl, fun h => by simp at h⟩

/-! ## Routines -/

theorem goes_current : Along (Goes m) (current : Drv β Request) := by
  refine along_get.bind fun s => ?_
  split
  · exact along_throw _
  · exact along_pure _

theorem goes_setCurrent {f : Request → Request} (hf : ∀ r, (f r).id = r.id) :
    Along (Goes m) (setCurrent f : Drv β Unit) := by
  intro s
  cases hq : s.queue with
  | nil => exact (ends_bind.mpr ((wp_current_nil hq).mpr (refl_of _ s)))
  | cons r q =>
    refine (wp_setCurrent hq f).mpr ⟨List.prefix_rfl, ?_, fun _ => ⟨rfl, rfl⟩⟩
    simp [State.order, hq, hf]

theorem goes_endRequest (uptodate : Bool) : Along (Goes m) (endRequest uptodate : Drv β Unit) := by
  intro s
  cases hq : s.queue with
  | nil => exact (ends_bind.mpr ((wp_current_nil hq).mpr (refl_of _ s)))
  | cons r q =>
    refine (wp_endRequest hq uptodate).mpr ⟨List.prefix_append _ _, ?_, fun _ => ⟨rfl, rfl⟩⟩
    simp [State.order, hq]

theorem goes_hdOut (D : Disks) (c : Command) (intrAddr : Handler) :
    Along (Goes m) (hdOut D c intrAddr : Drv β Unit) :=
  (along_throw _).ite (along_modify fun _ => goes_same rfl rfl rfl rfl)

theorem goes_issue (D : Disks) (r : Request) : Along (Goes m) (issue D r : Drv β Unit) := by
  refine along_get.bind fun s => (along_throw _).ite ?_
  refine .ite ?_ (.ite ?_ (.ite ?_ (.ite (goes_hdOut D _ _) (along_throw _))))
  · exact .bind (along_modify fun _ => goes_same rfl rfl rfl rfl) fun _ => goes_hdOut D _ _
  · exact .bind (along_modify fun _ => goes_same rfl rfl rfl rfl) fun _ => goes_hdOut D _ _
  · exact (goes_hdOut D _ _).bind fun _ => along_modify fun _ => goes_same rfl rfl rfl rfl

theorem goes_doRequests (D : Disks) (q : List Request) : Along (Goes m) (doRequests D q : Drv β Unit) := by
  induction q with
  | nil => exact along_pure ()
  | cons r q ih =>
    exact (along_throw _).ite (.ite ((goes_endRequest _).bind fun _ => ih) (goes_issue D r))

theorem goes_doHdRequest (D : Disks) : Along (Goes m) (doHdRequest D : Drv β Unit) :=
  along_get.bind fun s => goes_doRequests D s.queue

theorem goes_badRwIntr : Along (Goes m) (badRwIntr : Drv β Unit) := by
  refine .bind (goes_setCurrent fun _ => rfl) fun _ => goes_current.bind fun _ => ?_
  refine (goes_endRequest _).whenever.bind fun _ => goes_current.bind fun _ => ?_
  exact .ite (along_modify fun _ => goes_same rfl rfl rfl rfl) (along_pure ())

theorem goes_again (D : Disks) : Along (Goes m) (do badRwIntr; doHdRequest D : Drv β Unit) :=
  goes_badRwIntr.bind fun _ => goes_doHdRequest D

theorem goes_drq (D : Disks) (o : Outcome β) : Along (Goes true) (drq D o) := by
  refine .bind (along_modify fun _ => goes_same rfl rfl rfl rfl) fun _ => .ite (goes_again D) ?_
  exact goes_current.bind fun _ => along_modify fun _ => goes_moving rfl rfl

theorem goes_readIntr (D : Disks) (bad : Bool) : Along (Goes true) (readIntr D bad : Drv β Unit) := by
  refine (goes_again D).ite (goes_current.bind fun r => ?_)
  refine .bind (along_modify fun s => goes_moving (by simp) (by simp)) fun _ => ?_
  refine .bind (goes_setCurrent fun _ => rfl) fun _ => goes_current.bind fun r => ?_
  exact .ite (along_modify fun _ => goes_same rfl rfl rfl rfl)
    ((goes_endRequest _).bind fun _ => goes_doHdRequest D)

theorem goes_writeIntr (D : Disks) (bad : Bool) : Along (Goes true) (writeIntr D bad : Drv β Unit) := by
  refine .ite (goes_again D) (.bind (goes_setCurrent fun _ => rfl) fun _ => goes_current.bind fun r => ?_)
  refine .ite ?_ ((goes_endRequest _).bind fun _ => goes_doHdRequest D)
  refine .bind (goes_setCurrent fun _ => rfl) fun _ => goes_current.bind fun r => ?_
  exact along_modify fun _ => goes_moving rfl rfl

theorem goes_recalIntr (D : Disks) (bad : Bool) : Along (Goes m) (recalIntr D bad : Drv β Unit) :=
  goes_badRwIntr.whenever.bind fun _ => goes_doHdRequest D

/-! ## Runs -/

theorem goes_answer (D : Disks) (o : Outcome β) : Along (Goes true) (answer D o) := by
  refine along_get.bind fun s => (goes_drq D o).ite ?_
  refine .bind (along_modify fun s => goes_moving (by simp) (by simp)) fun _ => ?_
  match s.doHd with
  | none => exact along_pure ()
  | some .readIntr => exact goes_readIntr D _
  | some .writeIntr => exact goes_writeIntr D _
  | some .recalIntr => exact goes_recalIntr D _

theorem goes_after (D : Disks) (o : Nat → Outcome β) (n : Nat) : Along (Goes true) (after D o n) := by
  induction n with
  | zero => exact goes_doHdRequest D
  | succ n ih => exact ih.bind fun _ => goes_answer D (o n)

end Linux011.BlkDrv.Hd
