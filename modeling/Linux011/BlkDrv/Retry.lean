import Linux011.BlkDrv.Completion
import Linux011.BlkDrv.Partition

/-!
# Retries

An error sends the request through `do_hd_request` again, from the sector it has reached.
The check there is made for two sectors from it on, so what is left of a request that ends
where its partition ends is refused.

* `serve` — `do_hd_request` goes on with a request that it does not refuse;
* `serving_answer` — one answer: the request gets on, or it ends;
* `retries_resume` — it is transferred, if no error finds the second sector of a request at
  the end of the partition left.
-/

namespace Linux011.BlkDrv.Hd

open Linux011.Lib

variable {β : Type}

def errors (o : Nat → Outcome β) : Nat → Nat
  | 0 => 0
  | n + 1 => errors o n + if (o n).isError then 1 else 0

/-- `CURRENT->nr_sectors`. -/
def State.left (s : State β) : Nat := (s.queue.head?.map Request.nrSectors).getD 0

/-! ## A request on its way -/

/-- The first values of `g` put from `p` on. -/
def putAll (f : Nat → β) (p : Nat) (g : Nat → β) : Nat → Nat → β
  | 0 => f
  | j + 1 => Function.update (putAll f p g j) (p + j) (g j)

/-- A request for two sectors that is accepted. -/
structure TwoSectors (D : Disks) (r : Request) : Prop where
  major  : r.dev / 256 = 3
  minor  : r.minor < 5 * D.nrHd
  cmd    : r.cmd = .read ∨ r.cmd = .write
  errors : r.errors = 0
  two    : r.nrSectors = 2
  within : (r.sector : Int) + 2 ≤ (D.hd r.minor).nrSects

/-- It has come past `j` sectors. -/
def Request.past (r : Request) (j e : Nat) : Request :=
  { r with sector := r.sector + j, nrSectors := 2 - j, buffer := r.buffer + j, errors := e }

variable {s t : State β} {D : Disks} {r : Request} {q : List Request}

/-- `do_hd_request` does not refuse what is left. -/
def Disks.Resumes (D : Disks) (r : Request) (j : Nat) : Prop :=
  (r.sector : Int) + j + 2 ≤ (D.hd r.minor).nrSects

/-- `j` sectors are transferred, from sector `pos` of the drive on. -/
def Copied (r : Request) (pos : Nat) (s : State β) (j : Nat) (t : State β) : Prop :=
  if r.isWrite then
    t.mem = s.mem ∧ t.disk = Function.update s.disk (r.minor / 5)
      (putAll (s.disk (r.minor / 5)) pos (fun i => s.mem (r.buffer + i)) j)
  else
    t.disk = s.disk ∧ t.mem = putAll s.mem r.buffer (fun i => s.disk (r.minor / 5) (pos + i)) j

/-- `j` sectors are transferred, and something may have been written to the next one. -/
def Moved (D : Disks) (r : Request) (s : State β) (j : Nat) (t : State β) : Prop :=
  ∃ u x, Copied r (D.block r) s j u ∧ t.mem = u.mem ∧
    t.disk = if r.isWrite then (u.putDisk (r.minor / 5) (D.block r + j) x).disk else u.disk

/-- What the driver waits for: the interrupt of `recal_intr`, DRQ, or that of the transfer. -/
inductive Phase
  | recal (again : Bool)
  | poll
  | transfer

def Phase.weight : Phase → Nat
  | .recal true => 3
  | .recal false => 2
  | .poll => 1
  | .transfer => 0

/-- The controller is at the next sector. -/
def jobAt (D : Disks) (r : Request) (j : Nat) (data : Option β) : Job β :=
  ⟨r.isWrite, r.minor / 5, D.block r + j, data⟩

def Phase.At (D : Disks) (r : Request) (s : State β) (j : Nat) (t : State β) : Phase → Prop
  | .recal again =>
    t.polling = false ∧ t.recalibrate = again ∧ t.doHd = some .recalIntr ∧ t.job = none
  | .poll =>
    t.polling = true ∧ t.recalibrate = false ∧ t.doHd = some .writeIntr ∧
      t.job = some (jobAt D r j none) ∧ r.isWrite = true
  | .transfer =>
    t.polling = false ∧ t.recalibrate = false ∧
      t.doHd = some (if r.isWrite then .writeIntr else .readIntr) ∧
      t.job = some (jobAt D r j (if r.isWrite then some (s.mem (r.buffer + j)) else none))

structure Serving (D : Disks) (r : Request) (q : List Request) (s : State β) (j e : Nat) (ph : Phase)
    (t : State β) : Prop where
  left   : j < 2
  queue  : t.queue = r.past j e :: q
  done   : t.done = s.done
  moved  : Moved D r s j t
  reset  : t.reset = false
  phase  : ph.At D r s j t
  resume : D.Resumes r j ∨ ph = .transfer

/-- It is the turn of the request, and nothing is expected. -/
structure Ready (D : Disks) (r : Request) (q : List Request) (s : State β) (j e : Nat) (t : State β) :
    Prop where
  left    : j < 2
  queue   : t.queue = r.past j e :: q
  done    : t.done = s.done
  moved   : Moved D r s j t
  polling : t.polling = false

/-- What comes of it. -/
def Request.phase (r : Request) (t : State β) : Phase :=
  if t.reset then .recal true
  else if t.recalibrate then .recal false
  else if r.isWrite then .poll
  else .transfer

theorem past_self (hr : TwoSectors D r) : r.past 0 0 = r := by
  have htwo := hr.two
  have herrors := hr.errors
  cases r
  subst htwo herrors
  rfl

theorem past_sector (h : D.Ok) (hr : TwoSectors D r) {j e : Nat} (hj : j < 2) :
    (r.past j e).sector + 2 < 4294967296 := by
  have hsize := h.size r.minor hr.minor
  have hwithin := hr.within
  simp only [Request.past]
  omega

theorem past_refuses (h : D.Ok) (hr : TwoSectors D r) {j e : Nat} (hj : j < 2) :
    D.refuses (r.past j e) = true ↔ ¬ D.Resumes r j := by
  have hminor := hr.minor
  rw [refuses_iff h.toLies (past_sector h hr hj)]
  simp only [Request.past, Request.minor, Disks.Resumes] at hminor ⊢
  omega

theorem past_block (h : D.Ok) (hr : TwoSectors D r) {j e : Nat} (hj : j < 2) (hresume : D.Resumes r j) :
    (D.block (r.past j e) : Int) = D.sectorOf r + j := by
  have hno : D.refuses (r.past j e) = false := by
    rw [← Bool.not_eq_true, past_refuses h hr hj, not_not]
    exact hresume
  have hblock := (block_eq h.toLies (past_sector h hr hj) hno).2.2
  simp only [Request.past, Request.minor, Disks.sectorOf] at hblock ⊢
  omega

theorem first_block (h : D.Ok) (hr : TwoSectors D r) : (D.block r : Int) = D.sectorOf r := by
  have hfirst := past_block h hr (e := 0) (j := 0) (by omega) hr.within
  rw [past_self hr] at hfirst
  omega

theorem block_toNat (h : D.Ok) (hr : TwoSectors D r) : D.block r = (D.sectorOf r).toNat := by
  rw [← first_block h hr, Int.toNat_natCast]

/-- The job of what is left. -/
theorem past_job (h : D.Ok) (hr : TwoSectors D r) {j e : Nat} (hj : j < 2) (hresume : D.Resumes r j) :
    jobOf D (D.transfer (r.past j e) r.winCmd).ports = some (jobAt D r j (none : Option β)) := by
  have hno : D.refuses (r.past j e) = false := by
    rw [← Bool.not_eq_true, past_refuses h hr hj]
    exact not_not.mpr hresume
  have hdrive := (h.drive hr.minor).1
  have hports := (addressed h.toLies (past_sector h hr hj) hno).ports (h.sectByte _ hdrive)
    (Nat.le_succ_of_le (h.cylShort _ hdrive)) r.winCmd
  rw [hports]
  have hnumber := number_transfer (D := D) (r := r.past j e)
  have hblock := past_block h hr (e := e) hj hresume
  have hfirst := first_block h hr
  have hpos : (D.hdInfo (r.minor / 5)).number (D.sec (r.past j e)) (D.head (r.past j e))
      (D.cyl (r.past j e)) = D.block r + j := by
    refine hnumber.trans ?_
    omega
  unfold Request.winCmd
  cases hw : r.isWrite
  all_goals simp only [jobAt, hw, ← hpos]; rfl

/-- `do_hd_request`, when what is left is not refused. -/
theorem serve (h : D.Ok) (hheads : ∀ d, d < D.nrHd → (D.hdInfo d).head ≤ 16) (hr : TwoSectors D r)
    {j e : Nat} (ht : Ready D r q s j e t) (hresume : D.Resumes r j) :
    wp (doHdRequest D) (fun _ u => Serving D r q s j e (r.phase t) u) (fun _ _ => False) t := by
  obtain ⟨hdrive, hone⟩ := h.drive hr.minor
  have hmajor : ¬ (r.past j e).dev / 256 ≠ 3 := not_not_intro hr.major
  have hno : D.refuses (r.past j e) ≠ true := (past_refuses h hr ht.left).not.mpr (not_not.mpr hresume)
  have hsixteen : (D.hdInfo (r.minor / 5)).head ≤ 16 := hheads _ hdrive
  have hpos := h.head _ hdrive
  have hhead : D.head (r.past j e) ≤ 15 :=
    Nat.le_of_lt_succ (Nat.lt_of_lt_of_le (Nat.mod_lt _ hpos) hsixteen)
  have hlast : down (D.hdInfo (r.minor / 5)).head ≤ 15 := by
    unfold down
    rw [if_neg (Nat.ne_of_gt hpos)]
    omega
  have hjob (cmd) (hcmd : r.winCmd = cmd) :
      jobOf D (D.transfer (r.past j e) cmd).ports = some (jobAt D r j (none : Option β)) := by
    rw [← hcmd]
    exact past_job h hr ht.left hresume
  rw [wp_doHdRequest, ht.queue, wp_doRequests_cons, if_neg hmajor, if_neg hno,
    wp_issue (r := r.past j e) (h.sect _ hdrive) hpos]
  unfold Request.phase
  by_cases hreset : t.reset = true
  · rw [if_pos hreset, if_pos hreset]
    refine hdOut_returns hone hlast ?_
    exact ⟨ht.left, ht.queue, ht.done, ht.moved, rfl, ⟨ht.polling, rfl, rfl, rfl⟩, .inl hresume⟩
  · rw [if_neg hreset, if_neg hreset]
    rw [Bool.not_eq_true] at hreset
    by_cases hrecal : t.recalibrate = true
    · rw [if_pos hrecal, if_pos hrecal]
      refine hdOut_returns hone (Nat.zero_le _) ?_
      exact ⟨ht.left, ht.queue, ht.done, ht.moved, hreset, ⟨ht.polling, rfl, rfl, rfl⟩, .inl hresume⟩
    · rw [if_neg hrecal, if_neg hrecal]
      rw [Bool.not_eq_true] at hrecal
      by_cases hw : r.cmd = .write
      · have hisWrite : r.isWrite = true := by simp [Request.isWrite, hw]
        rw [if_pos (show (r.past j e).cmd = .write from hw), if_pos hisWrite]
        refine hdOut_returns hone hhead ?_
        refine ⟨ht.left, ht.queue, ht.done, ht.moved, hreset, ⟨rfl, hrecal, rfl, ?_, hisWrite⟩, .inl hresume⟩
        exact hjob .winWrite (by simp [Request.winCmd, hisWrite])
      · have hread : r.cmd = .read := hr.cmd.resolve_right hw
        have hisWrite : r.isWrite = false := by simp [Request.isWrite, hw]
        rw [if_neg (show (r.past j e).cmd ≠ .write from hw), if_pos (show (r.past j e).cmd = .read from hread)]
        refine hdOut_returns hone hhead ?_
        rw [hisWrite]
        refine ⟨ht.left, ht.queue, ht.done, ht.moved, hreset, ⟨ht.polling, hrecal, ?_, ?_⟩, .inl hresume⟩
        · rw [hisWrite]
          rfl
        · rw [hisWrite]
          exact hjob .winRead (by simp [Request.winCmd, hisWrite])

/-- It is ended so. -/
def Ended (r : Request) (s : State β) (uptodate : Bool) (t : State β) : Prop :=
  (s.done ++ [(r.id, uptodate)]) <+: t.done

/-- The request is ended, and what comes after it is worked on. -/
theorem end_next (D : Disks) {r' : Request} (hqueue : t.queue = r' :: q) (hid : r'.id = r.id)
    (hdone : t.done = s.done) (uptodate : Bool) :
    Ends (do endRequest uptodate; doHdRequest D)
      (fun u => Ended r s uptodate u ∧ u.mem = t.mem ∧ u.disk = t.disk) t := by
  have hnext := goes_doHdRequest (m := false) D
    { t with queue := q, done := t.done ++ [(r'.id, uptodate)] }
  have hgoes (u) (hu : Goes false { t with queue := q, done := t.done ++ [(r'.id, uptodate)] } u) :
      Ended r s uptodate u ∧ u.mem = t.mem ∧ u.disk = t.disk := by
    refine ⟨?_, hu.data rfl⟩
    rw [Ended, ← hdone, ← hid]
    exact hu.done
  refine (wp_bind ..).mpr ((wp_endRequest hqueue _).mpr ?_)
  exact hnext.mono hgoes

theorem refuse (h : D.Ok) (hr : TwoSectors D r) {j e : Nat} (ht : Ready D r q s j e t)
    (hresume : ¬ D.Resumes r j) : Ends (doHdRequest D) (Ended r s false) t := by
  have hmajor : ¬ (r.past j e).dev / 256 ≠ 3 := not_not_intro hr.major
  have hend := end_next (r := r) D ht.queue rfl ht.done false
  rw [Ends, wp_bind, wp_endRequest ht.queue, wp_doHdRequest] at hend
  rw [Ends, wp_doHdRequest, ht.queue, wp_doRequests_cons, if_neg hmajor,
    if_pos ((past_refuses h hr ht.left).mpr hresume), wp_endRequest ht.queue]
  exact wp_mono hend (fun _ _ hu => hu.1) fun _ _ hu => hu.1

theorem bad {j e : Nat} (ht : Ready D r q s j e t) (he : e + 1 < maxErrors) :
    wp badRwIntr (fun _ u => Ready D r q s j (e + 1) u) (fun _ _ => False) t := by
  rw [wp_badRwIntr ht.queue he]
  exact ⟨ht.left, rfl, ht.done, ht.moved, ht.polling⟩

/-! ## An answer -/

theorem putDisk_putDisk (u : State β) (d pos : Nat) (x y : β) :
    ((u.putDisk d pos x).putDisk d pos y).disk = (u.putDisk d pos y).disk := by
  simp [State.putDisk]

theorem putDisk_congr {u : State β} (h : t.disk = u.disk) (d pos : Nat) (x : β) :
    (t.putDisk d pos x).disk = (u.putDisk d pos x).disk := by
  simp [State.putDisk, h]

theorem Moved.congr {j : Nat} {u : State β} (h : Moved D r s j t) (hmem : u.mem = t.mem)
    (hdisk : u.disk = t.disk) : Moved D r s j u := by
  obtain ⟨v, x, hv, hvmem, hvdisk⟩ := h
  exact ⟨v, x, hv, hmem.trans hvmem, hdisk.trans hvdisk⟩

theorem Copied.moved {j : Nat} (h : Copied r (D.block r) s j t) : Moved D r s j t := by
  refine ⟨t, t.disk (r.minor / 5) (D.block r + j), h, rfl, ?_⟩
  simp [State.putDisk]

/-- What is written to the next sector does not matter. -/
theorem Moved.put {j : Nat} (h : Moved D r s j t) (hw : r.isWrite = true) (y : β) :
    Moved D r s j (t.putDisk (r.minor / 5) (D.block r + j) y) := by
  obtain ⟨u, x, hu, hmem, hdisk⟩ := h
  rw [if_pos hw] at hdisk
  refine ⟨u, y, hu, hmem, ?_⟩
  rw [if_pos hw, putDisk_congr hdisk, putDisk_putDisk]

theorem Moved.write {j : Nat} (h : Moved D r s j t) (hw : r.isWrite = true) :
    Copied r (D.block r) s (j + 1)
      (t.putDisk (r.minor / 5) (D.block r + j) (s.mem (r.buffer + j))) := by
  obtain ⟨u, x, hu, hmem, hdisk⟩ := h
  rw [if_pos hw] at hdisk
  rw [Copied, if_pos hw] at hu ⊢
  refine ⟨hmem.trans hu.1, ?_⟩
  rw [putDisk_congr hdisk, putDisk_putDisk]
  simp [State.putDisk, hu.2, putAll]

theorem Moved.read {j : Nat} (h : Moved D r s j t) (hw : r.isWrite = false) :
    t.disk = s.disk ∧ Function.update t.mem (r.buffer + j) (t.disk (r.minor / 5) (D.block r + j)) =
      putAll s.mem r.buffer (fun i => s.disk (r.minor / 5) (D.block r + i)) (j + 1) := by
  obtain ⟨u, x, hu, hmem, hdisk⟩ := h
  rw [hw, if_neg (by simp)] at hdisk
  rw [Copied, hw, if_neg (by simp)] at hu
  have hsame := hdisk.trans hu.1
  refine ⟨hsame, ?_⟩
  rw [hsame, hmem, hu.2]
  rfl

theorem moved_failed {j : Nat} (data : Option β) (h : Moved D r s j t)
    (hjob : t.job = none ∨ t.job = some (jobAt D r j data)) (x : β) :
    Moved D r s j (t.controller (.error x)) := by
  unfold State.controller
  obtain hjob | hjob := hjob
  · rw [hjob]
    exact h.congr rfl rfl
  · rw [hjob, jobAt]
    cases hw : r.isWrite with
    | false => exact h.congr rfl rfl
    | true =>
      cases data with
      | none => exact h.congr rfl rfl
      | some v => exact (h.put hw x).congr rfl rfl

/-- Whatever the driver waits for, an error has it try again. -/
theorem answer_error {j e : Nat} {ph : Phase} (hS : Serving D r q s j e ph t) (x : β) :
    ∃ u, Ready D r q s j e u ∧ ∀ {Q : Unit → State β → Prop} {E},
      wp (answer D (.error x)) Q E t ↔ wp (do badRwIntr; doHdRequest D) Q E u := by
  have hphase := hS.phase
  cases ph with
  | poll =>
    obtain ⟨hpolling, -⟩ := hphase
    refine ⟨{ t with polling := false }, ⟨hS.left, hS.queue, hS.done, hS.moved.congr rfl rfl, rfl⟩, ?_⟩
    intro Q E
    rw [wp_answer_poll hpolling, drq, wp_bind, wp_modify]
    exact Iff.rfl
  | recal again =>
    obtain ⟨hpolling, -, hdo, hjob⟩ := hphase
    have hmoved := moved_failed none hS.moved (.inl hjob) x
    refine ⟨{ t.controller (.error x) with doHd := none },
      ⟨hS.left, by simp [hS.queue], by simp [hS.done], hmoved.congr rfl rfl, by simp [hpolling]⟩, ?_⟩
    intro Q E
    rw [wp_answer_intr hpolling hdo]
    exact Iff.rfl
  | transfer =>
    obtain ⟨hpolling, -, hdo, hjob⟩ := hphase
    have hmoved := moved_failed _ hS.moved (.inr hjob) x
    refine ⟨{ t.controller (.error x) with doHd := none },
      ⟨hS.left, by simp [hS.queue], by simp [hS.done], hmoved.congr rfl rfl, by simp [hpolling]⟩, ?_⟩
    intro Q E
    rw [wp_answer_intr hpolling hdo]
    cases r.isWrite <;> exact Iff.rfl

/-- It is completed, and both of its sectors of the partition are transferred. -/
def Completed (D : Disks) (r : Request) (s t : State β) : Prop :=
  Ended r s true t ∧ Copied r (D.sectorOf r).toNat s 2 t

theorem TwoSectors.sector (hr : TwoSectors D r) (h : D.Ok) : r.sector ≠ 4294967295 := by
  have hsize := h.size r.minor hr.minor
  have hwithin := hr.within
  omega

theorem past_readOn {e : Nat} (hsector : r.sector ≠ 4294967295) : (r.past 0 e).readOn = r.past 1 0 := by
  simp [Request.readOn, Request.advance, Request.past, up, down, hsector]

theorem past_advance {e : Nat} (hsector : r.sector ≠ 4294967295) : (r.past 0 e).advance = r.past 1 e := by
  simp [Request.advance, Request.past, up, down, hsector]

/-- The interrupt of a transfer that was a read. -/
theorem read_ok (h : D.Ok) (hr : TwoSectors D r) {j e : Nat} (ht : Ready D r q s j e t)
    (hw : r.isWrite = false) (hrecal : t.recalibrate = false) (hreset : t.reset = false)
    (hjob : t.job = some (jobAt D r j none)) :
    wp (readIntr D false) (fun _ u => (j = 0 ∧ Serving D r q s 1 0 .transfer u) ∨ Completed D r s u)
      (fun _ => Completed D r s) t := by
  obtain ⟨hdisk, hmem⟩ := ht.moved.read hw
  have hport : t.portRead (r.past j e).buffer = { t with
      mem := putAll s.mem r.buffer (fun i => s.disk (r.minor / 5) (D.block r + i)) (j + 1)
      job := some (jobAt D r (j + 1) none) } := by
    rw [State.portRead, hjob, jobAt, hw, ← hmem, jobAt, hw]
    rfl
  have hcopied (u : State β) (hudisk : u.disk = t.disk)
      (humem : u.mem = putAll s.mem r.buffer (fun i => s.disk (r.minor / 5) (D.block r + i)) (j + 1)) :
      Copied r (D.block r) s (j + 1) u := by
    rw [Copied, hw, if_neg (by simp)]
    exact ⟨hudisk.trans hdisk, humem⟩
  rw [wp_readIntr_ok ht.queue, hport]
  obtain hj | hj : j = 0 ∨ j = 1 := by
    have := ht.left
    omega
  · subst hj
    rw [past_readOn (hr.sector h), if_pos (by simp [Request.past])]
    refine .inl ⟨rfl, by decide, rfl, ht.done, Copied.moved (hcopied _ rfl rfl), hreset, ?_, .inr rfl⟩
    refine ⟨ht.polling, hrecal, ?_, ?_⟩
    · rw [hw]
      rfl
    · rw [hw]
      rfl
  · subst hj
    rw [if_neg (by simp [Request.readOn, Request.advance, Request.past, down])]
    have hend := end_next (r := r) (s := s) (t := { t with
      queue := (r.past 1 e).readOn :: q
      mem := putAll s.mem r.buffer (fun i => s.disk (r.minor / 5) (D.block r + i)) (1 + 1)
      job := some (jobAt D r (1 + 1) none) }) D rfl rfl ht.done true
    have hcompleted (u : State β) (hu : Ended r s true u ∧ u.mem = _ ∧ u.disk = _) : Completed D r s u :=
      ⟨hu.1, block_toNat h hr ▸ hcopied u hu.2.2 hu.2.1⟩
    exact wp_mono hend (fun _ u hu => .inr (hcompleted u hu)) fun _ u hu => hcompleted u hu

/-- The interrupt of a transfer that was a write; the controller has written the sector. -/
theorem write_ok (h : D.Ok) (hr : TwoSectors D r) {j e : Nat} (hj : j < 2) (hw : r.isWrite = true)
    (hqueue : t.queue = r.past j e :: q) (hdone : t.done = s.done)
    (hcopied : Copied r (D.block r) s (j + 1) t) (hpolling : t.polling = false)
    (hrecal : t.recalibrate = false) (hreset : t.reset = false)
    (hjob : t.job = some (jobAt D r (j + 1) none)) :
    wp (writeIntr D false) (fun _ u => (j = 0 ∧ Serving D r q s 1 e .transfer u) ∨ Completed D r s u)
      (fun _ => Completed D r s) t := by
  have hkept (u : State β) (hudisk : u.disk = t.disk) (humem : u.mem = t.mem) :
      Copied r (D.block r) s (j + 1) u := by
    rw [Copied, hudisk, humem]
    exact hcopied
  have hmem : t.mem = s.mem := by
    rw [Copied, if_pos hw] at hcopied
    exact hcopied.1
  rw [wp_writeIntr_ok hqueue]
  obtain hj | hj : j = 0 ∨ j = 1 := by omega
  · subst hj
    rw [past_advance (hr.sector h), if_pos (by simp [Request.writtenOn, Request.past, down])]
    refine .inl ⟨rfl, by decide, rfl, hdone, Copied.moved (hkept _ rfl rfl), hreset, ?_, .inr rfl⟩
    refine ⟨hpolling, hrecal, ?_, ?_⟩
    · rw [hw]
      rfl
    · rw [hw, State.portWrite, hjob, hmem]
      rfl
  · subst hj
    rw [if_neg (by simp [Request.writtenOn, Request.past, down])]
    have hend := end_next (r := r) (s := s) (t := { t with queue := (r.past 1 e).writtenOn :: q }) D
      rfl rfl hdone true
    have hcompleted (u : State β) (hu : Ended r s true u ∧ u.mem = t.mem ∧ u.disk = t.disk) :
        Completed D r s u :=
      ⟨hu.1, block_toNat h hr ▸ hkept u hu.2.2 hu.2.1⟩
    exact wp_mono hend (fun _ u hu => .inr (hcompleted u hu)) fun _ u hu => hcompleted u hu

/-- What an answer that is not an error leads to. -/
def Gets (D : Disks) (r : Request) (q : List Request) (s : State β) (j e : Nat) (ph : Phase)
    (t : State β) : Prop :=
  ∃ j' e' ph', Serving D r q s j' e' ph' t ∧ e' ≤ e ∧ j ≤ j' ∧ ph'.weight + j < ph.weight + j'

theorem answer_ok (h : D.Ok) (hheads : ∀ d, d < D.nrHd → (D.hdInfo d).head ≤ 16) (hr : TwoSectors D r)
    {j e : Nat} {ph : Phase} (hS : Serving D r q s j e ph t) :
    wp (answer D .ok) (fun _ u => Gets D r q s j e ph u ∨ Completed D r s u)
      (fun _ => Completed D r s) t := by
  have hphase := hS.phase
  cases ph with
  | poll =>
    obtain ⟨hpolling, hrecal, hdo, hjob, hw⟩ := hphase
    have hmem : t.mem = s.mem := by
      obtain ⟨u, x, hu, hmem, -⟩ := hS.moved
      rw [Copied, if_pos hw] at hu
      exact hmem.trans hu.1
    rw [wp_answer_poll hpolling, wp_drq_ok hS.queue]
    refine .inl ⟨j, e, .transfer, ⟨hS.left, hS.queue, hS.done, hS.moved.congr rfl rfl, hS.reset, ?_, .inr rfl⟩,
      Nat.le_refl _, Nat.le_refl _, by simp [Phase.weight]⟩
    refine ⟨rfl, hrecal, ?_, ?_⟩
    · rw [hw]
      exact hdo
    · rw [State.portWrite, hjob, hmem, hw]
      rfl
  | recal again =>
    obtain ⟨hpolling, hrecal, hdo, hjob⟩ := hphase
    have hsame : t.controller .ok = t := by
      rw [State.controller, hjob]
    have hresume : D.Resumes r j := hS.resume.resolve_right (by simp)
    have hready : Ready D r q s j e { t with doHd := none } :=
      ⟨hS.left, hS.queue, hS.done, hS.moved.congr rfl rfl, hpolling⟩
    have hweight : (r.phase { t with doHd := none }).weight < (Phase.recal again).weight := by
      unfold Request.phase
      rw [hS.reset, hrecal]
      cases again <;> cases r.isWrite <;> decide
    rw [wp_answer_intr hpolling hdo, hsame]
    refine (wp_bind ..).mpr ((wp_whenever ..).mpr ?_)
    rw [if_neg (by simp [Outcome.isError])]
    exact wp_mono (serve h hheads hr hready hresume) (fun _ u hu => .inl ⟨j, e, _, hu,
      Nat.le_refl _, Nat.le_refl _, Nat.add_lt_add_right hweight j⟩) fun _ _ hu => hu.elim
  | transfer =>
    obtain ⟨hpolling, hrecal, hdo, hjob⟩ := hphase
    rw [wp_answer_intr hpolling hdo]
    cases hw : r.isWrite with
    | true =>
      rw [hw, jobAt, hw] at hjob
      have hdone : t.controller .ok =
          { t.putDisk (r.minor / 5) (D.block r + j) (s.mem (r.buffer + j)) with
            job := some (jobAt D r (j + 1) none) } := by
        rw [State.controller, hjob, jobAt, hw]
        rfl
      have hcopied := hS.moved.write hw
      rw [hdone]
      have hgets := write_ok h hr (t := { t.putDisk (r.minor / 5) (D.block r + j) (s.mem (r.buffer + j)) with
        job := some (jobAt D r (j + 1) none), doHd := none }) hS.left hw hS.queue hS.done
        (by rw [Copied] at hcopied ⊢; exact hcopied) hpolling hrecal hS.reset rfl
      refine wp_mono hgets (fun _ u hu => hu.imp_left fun hleft => ?_) fun _ _ hu => hu
      obtain ⟨hj, hu⟩ := hleft
      exact ⟨1, e, .transfer, hu, Nat.le_refl _, by omega, by simp [Phase.weight, hj]⟩
    | false =>
      rw [hw, if_neg (by simp)] at hjob
      have hsame : t.controller .ok = t := by
        rw [State.controller, hjob, jobAt, hw]
      have hready : Ready D r q s j e { t with doHd := none } :=
        ⟨hS.left, hS.queue, hS.done, hS.moved.congr rfl rfl, hpolling⟩
      rw [hsame]
      refine wp_mono (read_ok h hr hready hw hrecal hS.reset hjob)
        (fun _ u hu => hu.imp_left fun hleft => ?_) fun _ _ hu => hu
      obtain ⟨hj, hu⟩ := hleft
      exact ⟨1, 0, .transfer, hu, Nat.zero_le _, by omega, by simp [Phase.weight, hj]⟩

theorem weight_le (ph : Phase) : ph.weight ≤ 3 := by
  cases ph with
  | recal again => cases again <;> decide
  | poll => decide
  | transfer => decide

/-- What an error leads to. -/
theorem answer_failed (h : D.Ok) (hheads : ∀ d, d < D.nrHd → (D.hdInfo d).head ≤ 16)
    (hr : TwoSectors D r) {j e : Nat} {ph : Phase} (hS : Serving D r q s j e ph t)
    (he : e + 1 < maxErrors) (x : β) :
    (D.Resumes r j → wp (answer D (.error x)) (fun _ u => ∃ ph', Serving D r q s j (e + 1) ph' u)
        (fun _ _ => False) t) ∧
      (¬ D.Resumes r j → Ends (answer D (.error x)) (Ended r s false) t) := by
  obtain ⟨u, hready, hiff⟩ := answer_error hS x
  have hbad := bad hready he
  constructor
  · intro hresume
    rw [hiff, wp_bind]
    refine wp_mono hbad (fun _ v hv => ?_) fun _ _ hv => hv
    exact wp_mono (serve h hheads hr hv hresume) (fun _ w hw => ⟨_, hw⟩) fun _ _ hw => hw
  · intro hresume
    rw [Ends, hiff, wp_bind]
    exact wp_mono hbad (fun _ v hv => refuse h hr hv hresume) fun _ _ hv => hv.elim

/-! ## Runs -/

variable {o : Nat → Outcome β}

theorem after_succ {n : Nat} {u : State β} :
    after D o (n + 1) s = .ok () u ↔ ∃ t, after D o n s = .ok () t ∧ answer D (o n) t = .ok () u :=
  bind_ok.trans ⟨fun ⟨_, t, ht, hu⟩ => ⟨t, ht, hu⟩, fun ⟨t, ht, hu⟩ => ⟨(), t, ht, hu⟩⟩

/-- Where nothing is ended, nothing was before. -/
theorem after_pred {n : Nat} {u : State β} (hu : after D o (n + 1) s = .ok () u) (hdone : u.done = s.done) :
    ∃ t, after D o n s = .ok () t ∧ t.done = s.done ∧ answer D (o n) t = .ok () u := by
  obtain ⟨t, ht, hu⟩ := after_succ.mp hu
  have hgrown := (wp_ok (goes_after D o n s) ht).done
  have hgrows := (wp_ok (goes_answer D (o n) t) hu).done
  rw [hdone] at hgrows
  exact ⟨t, ht, hgrows.eq_of_length (Nat.le_antisymm hgrows.length_le hgrown.length_le), hu⟩

theorem after_before {n k : Nat} (ht : after D o (n + k) s = .ok () t) (hdone : t.done = s.done) :
    ∃ u, after D o n s = .ok () u ∧ u.done = s.done := by
  induction k generalizing t with
  | zero => exact ⟨t, ht, hdone⟩
  | succ k ih =>
    obtain ⟨u, hu, hudone, -⟩ := after_pred ht hdone
    exact ih hu hudone

theorem ends_succ {n : Nat} {P : State β → Prop} (ht : after D o n s = .ok () t)
    (hP : Ends (answer D (o n)) P t) : Ends (after D o (n + 1)) P s := by
  rw [Ends, after, wp_bind, wp_of_ok ht]
  exact hP

/-- What was ended stays so. -/
theorem ended_after {uptodate : Bool} {n : Nat} (hn : Ends (after D o n) (Ended r s uptodate) s) (k : Nat) :
    Ends (after D o (n + k)) (Ended r s uptodate) s := by
  induction k with
  | zero => exact hn
  | succ k ih =>
    refine (wp_bind ..).mpr (wp_mono ih (fun _ t ht => ?_) fun _ _ ht => ht)
    exact (goes_answer D _ t).mono fun _ hu => ht.trans hu.done

theorem ended_once {u : State β} (ht : Ended r s true u) (hf : Ended r s false u) : False := by
  have heq := List.prefix_of_prefix_length_le ht hf (by simp)
  have hlast := heq.eq_of_length (by simp)
  simp at hlast

theorem not_ended (hdone : t.done = s.done) {uptodate : Bool} : ¬ Ended r s uptodate t := by
  intro ht
  have hlength := ht.length_le
  rw [hdone, List.length_append] at hlength
  exact Nat.not_succ_le_self _ hlength

/-- Fewer errors than `MAX_ERRORS` come to the request: they are counted while it is not
ended. -/
def Few (D : Disks) (o : Nat → Outcome β) (s : State β) : Prop :=
  ∀ n t, after D o n s = .ok () t → t.done = s.done → errors o (n + 1) < maxErrors

/-- An answer to a request that is not ended. -/
theorem serving_answer (h : D.Ok) (hheads : ∀ d, d < D.nrHd → (D.hdInfo d).head ≤ 16)
    (hr : TwoSectors D r) {j e n : Nat} {ph : Phase} (hS : Serving D r q s j e ph t)
    (he : e ≤ errors o n) (hfew : errors o (n + 1) < maxErrors)
    (hgood : (o n).isError = true → D.Resumes r j) :
    wp (answer D (o n))
      (fun _ u => (∃ j' e' ph', Serving D r q s j' e' ph' u ∧ e' ≤ errors o (n + 1) ∧
          ph'.weight + 4 * (maxErrors - errors o (n + 1)) + j <
            ph.weight + 4 * (maxErrors - errors o n) + j') ∨
        Completed D r s u)
      (fun _ => Completed D r s) t := by
  rw [errors] at hfew
  rw [errors]
  cases ho : o n with
  | ok =>
    have hzero : (if (Outcome.ok : Outcome β).isError = true then 1 else 0) = 0 := rfl
    rw [hzero]
    refine wp_mono (answer_ok h hheads hr hS) (fun _ u hu => hu.imp_left ?_) fun _ _ hu => hu
    intro ⟨j', e', ph', hS', he', _, hweight⟩
    exact ⟨j', e', ph', hS', by omega, by omega⟩
  | error x =>
    have hone : (if (Outcome.error x).isError = true then 1 else 0) = 1 := rfl
    rw [ho, hone] at hfew
    rw [hone]
    have hfailed := (answer_failed h hheads hr hS (by omega) x).1 (hgood (by rw [ho]; rfl))
    refine wp_mono hfailed (fun _ u hu => .inl ?_) fun _ _ hu => hu.elim
    obtain ⟨ph', hS'⟩ := hu
    have hweight := weight_le ph'
    exact ⟨j, e + 1, ph', hS', by omega, by omega⟩

/-- An error that finds what is left of the request refused. -/
theorem serving_late (h : D.Ok) (hheads : ∀ d, d < D.nrHd → (D.hdInfo d).head ≤ 16)
    (hr : TwoSectors D r) {j e n : Nat} {ph : Phase} (hS : Serving D r q s j e ph t)
    (he : e ≤ errors o n) (hfew : errors o (n + 1) < maxErrors) (herror : (o n).isError = true)
    (hresume : ¬ D.Resumes r j) : Ends (answer D (o n)) (Ended r s false) t := by
  rw [errors, if_pos herror] at hfew
  cases ho : o n with
  | ok =>
    rw [ho] at herror
    cases herror
  | error x => exact (answer_failed h hheads hr hS (by omega) x).2 hresume

theorem serving_left {j e : Nat} {ph : Phase} (hS : Serving D r q s j e ph t) : t.left = 2 - j := by
  rw [State.left, hS.queue]
  rfl

theorem ready_start (hr : TwoSectors D r) (hq : s.queue = r :: q) (hpolling : s.polling = false) :
    Ready D r q s 0 0 s := by
  refine ⟨by decide, ?_, rfl, Copied.moved ?_, hpolling⟩
  · rw [past_self hr]
    exact hq
  · unfold Copied
    split <;> simp [putAll]

/-- A request that is not ended is on its way. -/
theorem serving_after (h : D.Ok) (hheads : ∀ d, d < D.nrHd → (D.hdInfo d).head ≤ 16)
    (hr : TwoSectors D r) (hq : s.queue = r :: q) (hpolling : s.polling = false) (hfew : Few D o s)
    {n : Nat} (ht : after D o n s = .ok () t) (hdone : t.done = s.done) :
    ∃ j e ph, Serving D r q s j e ph t ∧ e ≤ errors o n := by
  induction n generalizing t with
  | zero =>
    have hserve := serve h hheads hr (ready_start hr hq hpolling) hr.within
    have hS := wp_ok hserve ht
    exact ⟨0, 0, _, hS, Nat.le_refl _⟩
  | succ n ih =>
    obtain ⟨v, hv, hvdone, hu⟩ := after_pred ht hdone
    obtain ⟨j, e, ph, hS, he⟩ := ih hv hvdone
    have hnext := hfew n v hv hvdone
    by_cases hgood : (o n).isError = true → D.Resumes r j
    · obtain ⟨j', e', ph', hS', he', _⟩ | hcompleted :=
        wp_ok (serving_answer h hheads hr hS he hnext hgood) hu
      · exact ⟨j', e', ph', hS', he'⟩
      · exact absurd hcompleted.1 (not_ended hdone)
    · rw [Classical.not_imp] at hgood
      exact absurd (wp_ok (serving_late h hheads hr hS he hnext hgood.1 hgood.2) hu) (not_ended hdone)

/-- The request gets on with every answer; `m` bounds how many it takes. -/
theorem completes (h : D.Ok) (hheads : ∀ d, d < D.nrHd → (D.hdInfo d).head ≤ 16) (hr : TwoSectors D r)
    (hfew : Few D o s)
    (hgood : ∀ n t, after D o n s = .ok () t → t.done = s.done → t.left = 1 → (o n).isError = true →
      D.Resumes r 1) (m : Nat) :
    ∀ {n j e : Nat} {ph : Phase} {t : State β}, after D o n s = .ok () t → Serving D r q s j e ph t →
      e ≤ errors o n → ph.weight + 4 * (maxErrors - errors o n) + (2 - j) ≤ m →
      ∃ n', Ends (after D o n') (Completed D r s) s := by
  induction m with
  | zero =>
    intro n j e ph t _ hS _ hm
    have := hS.left
    omega
  | succ m ih =>
    intro n j e ph t ht hS he hm
    have hleft := hS.left
    have hresume (herror : (o n).isError = true) : D.Resumes r j := by
      obtain hj | hj : j = 0 ∨ j = 1 := by omega
      · rw [hj]
        exact hr.within
      · have hone := serving_left hS
        rw [hj] at hone ⊢
        exact hgood n t ht hS.done hone herror
    have hanswer := serving_answer h hheads hr hS he (hfew n t ht hS.done) hresume
    cases hu : answer D (o n) t with
    | error _ u =>
      refine ⟨n + 1, ends_succ ht ?_⟩
      have hcompleted := wp_error hanswer hu
      unfold Ends wp
      rw [hu]
      exact hcompleted
    | ok _ u =>
      have hsucc := after_succ.mpr ⟨t, ht, hu⟩
      obtain ⟨j', e', ph', hS', he', hweight⟩ | hcompleted := wp_ok hanswer hu
      · have := hS'.left
        exact ih hsucc hS' he' (by omega)
      · exact ⟨n + 1, (wp_of_ok hsucc).mpr hcompleted⟩

theorem never_completed {n : Nat} (ht : after D o n s = .ok () t) (hdone : t.done = s.done)
    (hended : Ends (after D o (n + 1)) (Ended r s false) s) :
    ¬ ∃ n', Ends (after D o n') (Completed D r s) s := by
  intro ⟨n', hn'⟩
  obtain hlt | hle := Nat.lt_or_ge n n'
  · obtain ⟨k, hk⟩ := Nat.exists_eq_add_of_le hlt
    have hstays := ended_after hended k
    rw [← hk] at hstays
    obtain ⟨u, hcompleted, hfailed⟩ := ends_both hn' hstays
    exact ended_once hcompleted.1 hfailed
  · obtain ⟨k, hk⟩ := Nat.exists_eq_add_of_le hle
    rw [hk] at ht
    obtain ⟨u, hu, hudone⟩ := after_before ht hdone
    exact not_ended hudone (wp_ok hn' hu).1

/-- **A retry goes on where the error was.** A request for two sectors that is accepted is
completed, with the two transferred, exactly if its partition goes on after them, or no error
comes when one of them is left. -/
theorem retries_resume (h : D.Ok) (hheads : ∀ d, d < D.nrHd → (D.hdInfo d).head ≤ 16)
    (hr : TwoSectors D r) (hq : s.queue = r :: q) (hpolling : s.polling = false) (hfew : Few D o s) :
    (∃ n, Ends (after D o n) (Completed D r s) s) ↔
      (r.sector : Int) + 2 < (D.hd r.minor).nrSects ∨
        ∀ n t, after D o n s = .ok () t → t.done = s.done → t.left = 1 → (o n).isError = false := by
  constructor
  · intro ⟨n', hn'⟩
    by_cases hmore : (r.sector : Int) + 2 < (D.hd r.minor).nrSects
    · exact .inl hmore
    · refine .inr fun n t ht hdone hone => ?_
      by_contra herror
      rw [Bool.not_eq_false] at herror
      obtain ⟨j, e, ph, hS, he⟩ := serving_after h hheads hr hq hpolling hfew ht hdone
      have hj : j = 1 := by
        have hleft := hS.left
        rw [serving_left hS] at hone
        omega
      have hresume : ¬ D.Resumes r j := by
        unfold Disks.Resumes
        omega
      have hlate := serving_late h hheads hr hS he (hfew n t ht hdone) herror hresume
      exact never_completed ht hdone (ends_succ ht hlate) ⟨n', hn'⟩
  · intro hcond
    have hgood : ∀ n t, after D o n s = .ok () t → t.done = s.done → t.left = 1 →
        (o n).isError = true → D.Resumes r 1 := by
      intro n t ht hdone hone herror
      obtain hmore | hnone := hcond
      · unfold Disks.Resumes
        omega
      · rw [hnone n t ht hdone hone] at herror
        cases herror
    have hserve := serve h hheads hr (ready_start hr hq hpolling) hr.within
    obtain ⟨_, t, ht, hS⟩ := wp_runs hserve
    exact completes h hheads hr hfew hgood _ (n := 0) ht hS (Nat.le_refl 0) (Nat.le_refl _)

-- 2 heads of 10 sectors on each of 100 cylinders, all of it one partition.
def oneDisk : Disks := ⟨1, fun _ => ⟨2, 10, 100⟩, fun _ => ⟨0, 2000⟩⟩

theorem oneDisk_ok : oneDisk.Ok := by
  refine ⟨⟨?_, ?_, ?_, ?_, ?_, fun _ _ => (by decide : (0 : Int) + 2000 ≤ 100 * 2 * 10)⟩, ?_, ?_⟩
  all_goals simp [oneDisk]

theorem oneDisk_heads (d : Nat) (_ : d < oneDisk.nrHd) : (oneDisk.hdInfo d).head ≤ 16 :=
  (by decide : 2 ≤ 16)

def twoFrom (sector : Nat) : Request := ⟨0, 769, .read, 0, sector, 2, 0⟩

def asked (sector : Nat) : State Unit :=
  ⟨[twoFrom sector], false, false, none, false, none, none, fun _ _ => (), fun _ => (), []⟩

/-- The second answer is an error. -/
def oneError (n : Nat) : Outcome Unit := if n = 1 then .error () else .ok

theorem errors_oneError (n : Nat) : errors oneError n ≤ 1 ∧ (n ≤ 1 → errors oneError n = 0) := by
  induction n with
  | zero => decide
  | succ n ih =>
    rw [errors, oneError]
    by_cases hn : n = 1
    · subst hn
      decide
    · rw [if_neg hn]
      exact ⟨ih.1, fun hle => ih.2 (by omega)⟩

theorem few_oneError (s : State Unit) : Few oneDisk oneError s := fun n _ _ _ =>
  Nat.lt_of_le_of_lt (errors_oneError (n + 1)).1 (by decide)

theorem retries_resume_first : ∃ n, Ends (after oneDisk oneError n) (Completed oneDisk (twoFrom 0) (asked 0)) (asked 0) :=
  (retries_resume oneDisk_ok oneDisk_heads ⟨rfl, by decide, .inl rfl, rfl, rfl, by decide⟩ rfl rfl
    (few_oneError _)).mpr (.inl (by decide))

/-- The first of the last two sectors is read, an error comes, and the request is refused. -/
theorem retry_refused : oneDisk.Ok ∧ TwoSectors oneDisk (twoFrom 1998) ∧ Few oneDisk oneError (asked 1998) ∧
    ¬ ∃ n, Ends (after oneDisk oneError n) (Completed oneDisk (twoFrom 1998) (asked 1998)) (asked 1998) := by
  refine ⟨oneDisk_ok, ⟨rfl, by decide, .inl rfl, rfl, rfl, by decide⟩, few_oneError _, ?_⟩
  have hone : wp (after oneDisk oneError 1) (fun _ t => t.done = []) (fun _ _ => False) (asked 1998) := by
    decide
  have htwo : wp (after oneDisk oneError 2) (fun _ t => [(0, false)] <+: t.done) (fun _ _ => False)
      (asked 1998) := by
    decide
  obtain ⟨_, t, ht, hdone⟩ := wp_runs hone
  exact never_completed ht hdone (wp_mono htwo (fun _ _ hu => hu) fun _ _ hu => hu.elim)

end Linux011.BlkDrv.Hd
